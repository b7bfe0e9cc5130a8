/-
  LogicBoard.Proofs.Edit.Paths
  ────────────────────────────────
  **PATHS THAT STAY UP TO DATE.**

  A wire is routed when it is made, and again whenever one of its pins may
  have moved: with its chip, or with the edges of the board.  So the path that
  a wire has always fits the places of its pins as they are now, unless the
  wire has no path and says so.

  Main statements:
    • `isCurrent_rerouted` — routing again brings the selected wires up to date,
    • `IsCurrent.congr` — paths fit as long as the chips at their ends stay,
    • `UpToDate.change` — every change of a content leaves all paths up to date,
    • `isCurrent_run` — during a session all paths are up to date.
-/
import LogicBoard.Proofs.Edit.Wiring

namespace LogicBoard

/-- What the pins of a chip move with. -/
def Chip.pose (c : Chip) : Name × Vec × Rotation := (c.type, c.pos, c.rotation)

/-! ## §1. Paths that fit. -/

namespace Board

variable {b : Board} {chip : Option Name}

/-- The path leads from one cell to another, step by step. -/
structure Joins (path : List Vec) (first last : Vec) : Prop where
  head : path.head? = some first
  last : path.getLast? = some last
  adjacent : path.IsChain fun a b => a.manhattan b = 1

/-- The wire has no path and says so, or its path fits the places of its pins. -/
def IsCurrent (b : Board) (w : Wire) : Prop :=
  (w.valid = false ∧ w.path = []) ∨
    (w.valid = true ∧ ∃ source target, b.place? w.source = some source ∧
      b.place? w.target = some target ∧ Joins w.path source.standOff target.standOff)

/-- A wire is up to date when it has just been routed. -/
theorem isCurrent_along (hedge : 0 ≤ b.extent.y) (w : Wire) :
    IsCurrent b ((b.routeOf w).along w) := by
  have hrouted := isRouted_routeOf hedge w
  cases hroute : b.routeOf w with
  | failed => exact Or.inl ⟨rfl, rfl⟩
  | searched path =>
    obtain ⟨source, target, hsource, htarget, hpath, -⟩ := hrouted.searched path hroute
    exact Or.inr ⟨rfl, source, target, hsource, htarget, hpath.head, hpath.last, hpath.adjacent⟩
  | direct path =>
    obtain ⟨source, target, hsource, htarget, hpath⟩ := hrouted.direct path hroute
    refine Or.inr ⟨rfl, source, target, hsource, htarget, ?_⟩
    show Joins path source.standOff target.standOff
    rcases hpath with ⟨heq, rfl⟩ | ⟨hadjacent, rfl⟩
    · exact ⟨rfl, congrArg some heq, List.isChain_singleton _⟩
    · exact ⟨rfl, rfl, List.isChain_pair.2 hadjacent⟩

/-- Routing again brings the selected wires up to date and leaves the others as they are. -/
theorem isCurrent_rerouted (hedge : 0 ≤ b.extent.y) {w : Wire}
    (hw : w ∈ (b.rerouted chip).content.wires) :
    IsCurrent b w ∨ (w ∈ b.content.wires ∧ isSelected chip w = false) := by
  -- The invariant of the turns: a selected wire is without a path or has been routed.
  have hall : ∃ wires, b.rerouted chip = b.withWires wires ∧
      ∀ w ∈ wires, IsCurrent b w ∨ (w ∈ b.content.wires ∧ isSelected chip w = false) := by
    refine List.foldlRecOn (b.schedule chip) turned (motive := fun c => ∃ wires,
      c = b.withWires wires ∧
        ∀ w ∈ wires, IsCurrent b w ∨ (w ∈ b.content.wires ∧ isSelected chip w = false))
      ⟨_, rfl, fun w hw => ?_⟩ ?_
    · obtain ⟨v, hv, rfl⟩ := List.mem_map.1 hw
      split
      · exact Or.inl (Or.inl ⟨rfl, rfl⟩)
      · rename_i hselected
        exact Or.inr ⟨hv, Bool.eq_false_iff.2 hselected⟩
    · rintro _ ⟨wires, rfl, hwires⟩ i -
      refine ⟨_, rfl, fun w hw => ?_⟩
      obtain ⟨j, hj⟩ := List.mem_iff_getElem?.1 hw
      rw [List.getElem?_modify] at hj
      obtain ⟨v, hv, hvw⟩ := Option.map_eq_some_iff.1 hj
      split at hvw
      · rw [← hvw]
        exact Or.inl (isCurrent_along (b := b.withWires wires) hedge v)
      · exact hvw ▸ hwires v (List.mem_of_getElem? hv)
  obtain ⟨wires, hboard, hwires⟩ := hall
  rw [hboard] at hw
  exact hwires w hw

/-! ## §2. Places of pins. -/

/-- The pins of a chip stay in place as long as the edges of the board and the pose of the chip
stay the same. -/
theorem place?_congr {b' : Board} {pin : Pin} (howner : b'.owner = b.owner)
    (htypes : b'.types = b.types) (hsettings : b'.settings = b.settings)
    (hsize : b'.content.size = b.content.size)
    (hchip : (b'.content.chip? pin.chip).map Chip.pose
      = (b.content.chip? pin.chip).map Chip.pose) : b'.place? pin = b.place? pin := by
  have hextent : b'.extent = b.extent := by
    unfold extent Content.gridSize
    rw [hsize, hsettings]
  unfold place?
  rw [howner, htypes]
  split
  · unfold placeOnEdge
    rw [hextent, hsettings]
  · cases hc : b.content.chip? pin.chip with
    | none =>
      rw [hc, Option.map_none, Option.map_eq_none_iff] at hchip
      rw [hchip]
      rfl
    | some c =>
      rw [hc, Option.map_some] at hchip
      obtain ⟨c', hc', hsame⟩ := Option.map_eq_some_iff.1 hchip
      obtain ⟨htype, hpos, hrotation⟩ : c'.type = c.type ∧ c'.pos = c.pos ∧
          c'.rotation = c.rotation := by simpa [Chip.pose] using hsame
      rw [hc']
      simp only [Option.bind_eq_bind, Option.bind_some, htype]
      unfold placeOnChip Chip.size
      rw [htypes, htype, hpos, hrotation]

/-- A path fits as long as the edges of the board and the poses of the chips at its ends stay the
same. -/
theorem IsCurrent.congr {b' : Board} {w : Wire} (h : IsCurrent b w) (howner : b'.owner = b.owner)
    (htypes : b'.types = b.types) (hsettings : b'.settings = b.settings)
    (hsize : b'.content.size = b.content.size)
    (hchips : ∀ id, w.usesChip id = true → (b'.content.chip? id).map Chip.pose
      = (b.content.chip? id).map Chip.pose) : IsCurrent b' w := by
  have hplace : ∀ pin : Pin, w.usesChip pin.chip = true → b'.place? pin = b.place? pin :=
    fun pin hpin => place?_congr howner htypes hsettings hsize (hchips _ hpin)
  unfold IsCurrent
  rw [hplace w.source (by simp [Wire.usesChip]), hplace w.target (by simp [Wire.usesChip])]
  exact h

end Board

namespace Editor

variable {types : TypeLookup} {e e' : Editor}

/-- Putting a chip somewhere does not matter to the wires of other chips. -/
theorem isCurrent_put {w : Wire} (h : (e.board types).IsCurrent w) {d : Chip}
    (hother : w.usesChip d.id = false) : ((e.put d).board types).IsCurrent w := by
  refine h.congr rfl rfl rfl rfl fun id hid => ?_
  have hne : d.id ≠ id := ne_of_usesChip hother hid
  exact congrArg (Option.map Chip.pose) ((chip?_put e d id).trans (if_neg hne))

/-! ## §3. Contents that are up to date. -/

/-- All paths of a content fit, and none was drawn by hand. -/
structure UpToDate (types : TypeLookup) (e : Editor) : Prop where
  height : 0 ≤ e.content.size.y
  undrawn : ∀ w ∈ e.content.wires, w.drawn = false
  current : ∀ w ∈ e.content.wires, (e.board types).IsCurrent w

theorem upToDate_start (types : TypeLookup) (owner : Name) {size : Vec} (hsize : 0 ≤ size.y)
    (settings : RouteSettings) : UpToDate types ⟨owner, .ofSize size, settings⟩ where
  height := hsize
  undrawn _ h := absurd h List.not_mem_nil
  current _ h := absurd h List.not_mem_nil

/-- Some wires are left, and their paths fit. -/
theorem UpToDate.carry (h : UpToDate types e) (hsize : e'.content.size = e.content.size)
    (hwires : e'.content.wires ⊆ e.content.wires)
    (hcurrent : ∀ w ∈ e'.content.wires, (e.board types).IsCurrent w →
      (e'.board types).IsCurrent w) : UpToDate types e' where
  height := hsize ▸ h.height
  undrawn w hw := h.undrawn w (hwires hw)
  current w hw := hcurrent w hw (h.current w (hwires hw))

/-- Routing again brings a content up to date if the paths of the other wires fit. -/
theorem upToDate_rerouted {chip : Option Name} (hheight : 0 ≤ e.content.size.y)
    (hscale : 0 ≤ e.settings.scale) (hundrawn : ∀ w ∈ e.content.wires, w.drawn = false)
    (hothers : ∀ w ∈ e.content.wires, Board.isSelected chip w = false →
      (e.board types).IsCurrent w) : UpToDate types (e.rerouted types chip) where
  height := by
    obtain ⟨wires, heq, -⟩ := e.rerouted_frame types chip
    rw [heq]
    exact hheight
  undrawn w hw := by
    obtain ⟨u, hu, hcleared⟩ := Board.mem_rerouted hw
    exact (congrArg Wire.drawn hcleared : u.cleared.drawn = w.cleared.drawn) ▸ hundrawn u hu
  current w hw := by
    have hcurrent : (e.board types).IsCurrent w := by
      rcases Board.isCurrent_rerouted (Int.mul_nonneg hheight hscale) hw with hnew | ⟨hold, hother⟩
      · exact hnew
      · exact hothers w hold hother
    -- The pins have stayed where they were.
    obtain ⟨wires, heq, -⟩ := e.rerouted_frame types chip
    rw [heq]
    exact hcurrent.congr rfl rfl rfl rfl fun _ _ => rfl

/-! ## §4. Changes. -/

theorem UpToDate.place (h : UpToDate types e) (hwired : WellWired types e) {c : Chip}
    (hc : e.accepts types c = true) (grid : Vec) :
    UpToDate types (e.put (c.clampTo grid types)) := by
  obtain ⟨⟨-, howner, hfree⟩, -⟩ := accepts_iff.1 hc
  -- No wire ends on a chip of this name yet.
  exact h.carry rfl (List.Subset.refl _) fun w hw hcurrent =>
    isCurrent_put hcurrent (hwired.not_usesChip howner hfree hw)

theorem UpToDate.remove (h : UpToDate types e) (id : Name) :
    UpToDate types ({ e with content := e.content.remove id }.disconnectChip id) := by
  refine h.carry rfl List.filter_sublist.subset fun w hw hcurrent => ?_
  refine hcurrent.congr rfl rfl rfl rfl fun id' hid' => ?_
  have hne : id ≠ id' := ne_of_usesChip (mem_disconnectChip.1 hw).2 hid'
  exact congrArg (Option.map Chip.pose) ((chip?_remove e.content id id').trans (if_neg hne))

theorem UpToDate.fill (h : UpToDate types e) {c : Chip} (hc : e.content.chip? c.id = some c)
    (constants : Table String Constant) : UpToDate types (e.put { c with constants }) := by
  refine h.carry rfl (List.Subset.refl _) fun w _ hcurrent => ?_
  refine hcurrent.congr rfl rfl rfl rfl fun id _ => ?_
  -- The chip that is replaced has the same pose.
  refine (congrArg (Option.map Chip.pose) (chip?_put e { c with constants } id)).trans ?_
  split
  · rename_i heq
    obtain rfl : c.id = id := heq
    rw [show (e.board types).content.chip? c.id = some c from hc]
    rfl
  · rfl

theorem UpToDate.connect (h : UpToDate types e) (hscale : 0 ≤ e.settings.scale)
    (source target : Pin) (layer : Int) :
    UpToDate types (e.withWires (e.content.wires ++ [e.wired types source target layer])) where
  height := h.height
  undrawn w hw := by
    rcases List.mem_append.1 hw with hold | hnew
    · exact h.undrawn w hold
    · obtain rfl := List.mem_singleton.1 hnew
      rfl
  current w hw := by
    have hcurrent : (e.board types).IsCurrent w := by
      rcases List.mem_append.1 hw with hold | hnew
      · exact h.current w hold
      · obtain rfl := List.mem_singleton.1 hnew
        exact Board.isCurrent_along (Int.mul_nonneg h.height hscale) _
    exact hcurrent.congr rfl rfl rfl rfl fun _ _ => rfl

/-- Every change of a content leaves all paths up to date. -/
theorem UpToDate.change (h : UpToDate types e) (hwired : WellWired types e)
    (hscale : 0 ≤ e.settings.scale) (hchange : Change types e e') : UpToDate types e' := by
  cases hchange with
  | refused => exact h
  | placed haccepted => exact h.place hwired haccepted _
  | removed id => exact h.remove id
  | @adjusted c d _ hid _ =>
    -- The wires of the chip are routed again, the others do not end on it.
    refine upToDate_rerouted h.height hscale h.undrawn fun w hw hother => ?_
    have hid' : (d.clampTo e.gridSize types).id = c.id := hid
    exact isCurrent_put (h.current w hw) (hid' ▸ hother)
  | filled hfound constants => exact h.fill hfound constants
  | connected layer _ => exact h.connect hscale _ _ layer
  | disconnected keep =>
    refine h.carry rfl List.filter_sublist.subset fun w _ hcurrent => ?_
    exact hcurrent.congr rfl rfl rfl rfl fun _ _ => rfl
  | rerouted chip => exact upToDate_rerouted h.height hscale h.undrawn fun w hw _ => h.current w hw
  | resized size height =>
    -- Everything may have moved, but no wire was drawn by hand, so all are routed again.
    refine upToDate_rerouted height hscale h.undrawn fun w hw hdrawn => ?_
    have hundrawn : w.drawn = false := h.undrawn w hw
    exact absurd hdrawn (by simp [Board.isSelected, hundrawn])

/-! ## §5. Sessions. -/

/-- On a board with edges, a session that starts without chips is carried out to its end, and all
paths are up to date then. -/
theorem isCurrent_run (types : TypeLookup) (owner : Name) (size : Vec) (hsize : 0 ≤ size.y)
    (settings : RouteSettings) (hscale : 0 ≤ settings.scale) (ops : List Operation) :
    ∃ e, run types ⟨owner, .ofSize size, settings⟩ ops = .ok e ∧ e.owner = owner ∧
      e.settings = settings ∧ ∀ w ∈ e.content.wires, (e.board types).IsCurrent w := by
  let P : Editor → Prop := fun e =>
    (e.owner = owner ∧ e.settings = settings) ∧ WellWired types e ∧ UpToDate types e
  have hstart : P ⟨owner, .ofSize size, settings⟩ :=
    ⟨⟨rfl, rfl⟩, wellWired_start types owner size settings, upToDate_start types owner hsize settings⟩
  have hchange : ∀ e e', P e → Change types e e' → P e' := by
    rintro e e' ⟨⟨howner, hsettings⟩, hwired, hcurrent⟩ hchange
    obtain ⟨howner', hsettings'⟩ := hchange.same
    exact ⟨⟨howner'.trans howner, hsettings'.trans hsettings⟩, hwired.change hchange,
      hcurrent.change hwired (hsettings ▸ hscale) hchange⟩
  have hedge : ∀ e, P e → 0 ≤ e.content.size.y ∧ 0 ≤ e.settings.scale := by
    rintro e ⟨⟨-, hsettings⟩, -, hcurrent⟩
    exact ⟨hcurrent.height, hsettings ▸ hscale⟩
  obtain ⟨e, hrun, ⟨howner, hsettings⟩, -, hcurrent⟩ := run_isOk hchange hedge ops hstart
  exact ⟨e, hrun, howner, hsettings, hcurrent.current⟩

/-- One wire of the buffer says that it has no path, the other one leads around the corner. -/
theorem isCurrent_buffer : ∃ e,
    run bufferTypes ⟨⟨"top"⟩, .ofSize ⟨2, 2⟩, ⟨1, 10, 9⟩⟩ bufferSession = .ok e ∧
      e.content.wires = bufferWires ∧ ∀ w ∈ bufferWires, (e.board bufferTypes).IsCurrent w := by
  obtain ⟨e, he, -, -, hcurrent⟩ := isCurrent_run bufferTypes ⟨"top"⟩ ⟨2, 2⟩ (by decide)
    ⟨1, 10, 9⟩ (by decide) bufferSession
  obtain ⟨e', he', hwires⟩ := run_bufferSession
  obtain rfl : e = e' := Except.ok.inj (he.symm.trans he')
  exact ⟨e, he, hwires, fun w hw => hcurrent w (hwires ▸ hw)⟩

end Editor

end LogicBoard
