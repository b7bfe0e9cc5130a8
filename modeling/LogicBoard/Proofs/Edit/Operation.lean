/-
  LogicBoard.Proofs.Edit.Operation
  ────────────────────────────────
  **EDITING AS A SEQUENCE OF OPERATIONS.**

  All that is done to a content during a session is one operation after the
  other.  There are many operations but few ways in which a content changes,
  and an invariant of editing is one that each of these ways keeps.

  Main statements:
    • `change_of_apply` — what an operation does, if it is carried out,
    • `apply_isOk` — on a board with edges, every operation is carried out,
    • `run_induction`, `run_isOk` — what every change keeps, a session keeps.
-/
import LogicBoard.Edit.Editor
import LogicBoard.Proofs.Design.Content
import LogicBoard.Proofs.Routing.Reroute

namespace LogicBoard

/-! ## §1. Operations. -/

/-- What can be done to a content. -/
inductive Operation where
  | addChip (c : Chip)
  | removeChip (id : Name)
  | moveChip (id : Name) (pos : Vec)
  | rotateChip (id : Name) (turns : Int)
  | setConstant (id : Name) (key : String) (value : Constant)
  | connect (a b : Pin) (layer : Int)
  | disconnect (pin : Pin)
  | disconnectChip (id : Name)
  | reroute (chip : Option Name)
  /-- A content has a height of at least zero. -/
  | setSize (size : Vec) (height : 0 ≤ size.y)

namespace Editor

variable {types : TypeLookup} {e e' : Editor}

/-- Carries out an operation; nothing changes if it is refused. -/
def apply (types : TypeLookup) (e : Editor) : Operation → Except BoardFault Editor
  | .addChip c => .ok ((e.addChip? types c).getD e)
  | .removeChip id => .ok ((e.removeChip? id).getD e)
  | .moveChip id pos => (e.moveChip types id pos).map (·.getD e)
  | .rotateChip id turns => (e.rotateChip types id turns).map (·.getD e)
  | .setConstant id key value => .ok ((e.setConstant? types id key value).getD e)
  | .connect a b layer => (e.connect types a b layer).map (·.getD e)
  | .disconnect pin => .ok (e.disconnect pin)
  | .disconnectChip id => .ok (e.disconnectChip id)
  | .reroute chip => (e.reroute types chip).map (·.2)
  | .setSize size _ => e.setSize types size

/-- Carries out operations in order. -/
def run (types : TypeLookup) (e : Editor) (ops : List Operation) : Except BoardFault Editor :=
  ops.foldlM (apply types) e

/-! ## §2. Changes. -/

/-- The editor with all selected wires routed again. -/
def rerouted (e : Editor) (types : TypeLookup) (chip : Option Name) : Editor :=
  { e with content := ((e.board types).rerouted chip).content }

/-- The editor with another size and all chips on the board. -/
def resized (e : Editor) (types : TypeLookup) (size : Vec) : Editor :=
  let content := { e.content with size }
  let grid := content.gridSize e.settings.scale
  { e with content := content.mapChips (·.clampTo grid types) (Chip.clampTo_id grid types) }

/-- The wire between two pins along its route. -/
def wired (e : Editor) (types : TypeLookup) (source target : Pin) (layer : Int) : Wire :=
  ((e.board types).routeOf (.between source target layer)).along (.between source target layer)

/-- The ways in which an operation may change a content. -/
inductive Change (types : TypeLookup) (e : Editor) : Editor → Prop where
  | refused : Change types e e
  | placed {c : Chip} (accepted : e.accepts types c = true) :
      Change types e (e.put (c.clampTo e.gridSize types))
  | removed (id : Name) :
      Change types e ({ e with content := e.content.remove id }.disconnectChip id)
  /-- A chip was moved or turned, and then brought onto the board. -/
  | adjusted {c d : Chip} (found : e.content.chip? c.id = some c) (id : d.id = c.id)
      (type : d.type = c.type) :
      Change types e ((e.put (d.clampTo e.gridSize types)).rerouted types (some c.id))
  /-- A slot of a chip was filled. -/
  | filled {c : Chip} (found : e.content.chip? c.id = some c)
      (constants : Table String Constant) : Change types e (e.put { c with constants })
  | connected {a b source target : Pin} (layer : Int)
      (ends : e.ends? types a b = some (source, target)) :
      Change types e (e.withWires (e.content.wires ++ [e.wired types source target layer]))
  | disconnected (keep : Wire → Bool) :
      Change types e (e.withWires (e.content.wires.filter keep))
  | rerouted (chip : Option Name) : Change types e (e.rerouted types chip)
  | resized (size : Vec) (height : 0 ≤ size.y) :
      Change types e ((e.resized types size).rerouted types none)

/-- Routing again changes the paths of wires and nothing else. -/
theorem rerouted_frame (e : Editor) (types : TypeLookup) (chip : Option Name) :
    ∃ wires, e.rerouted types chip = e.withWires wires ∧
      wires.map Wire.cleared = e.content.wires.map Wire.cleared := by
  obtain ⟨wires, hboard, hwires⟩ := (e.board types).rerouted_frame chip
  refine ⟨wires, ?_, hwires⟩
  unfold rerouted
  rw [hboard]
  rfl

/-- A change leaves owner and settings as they are. -/
theorem Change.same (hchange : Change types e e') :
    e'.owner = e.owner ∧ e'.settings = e.settings := by
  cases hchange <;> exact ⟨rfl, rfl⟩

/-! ## §3. What chips are where. -/

theorem chip?_put (e : Editor) (d : Chip) (id : Name) :
    (e.put d).content.chip? id = if d.id = id then some d else e.content.chip? id :=
  Table.find?_insert e.content.chips d.id id d

theorem chip?_remove (content : Content) (id id' : Name) :
    (content.remove id).chip? id' = if id = id' then none else content.chip? id' :=
  Table.find?_erase content.chips id id'

theorem chip?_resized (e : Editor) (types : TypeLookup) (size : Vec) (id : Name) :
    (e.resized types size).content.chip? id
      = (e.content.chip? id).map (·.clampTo (size.scale e.settings.scale) types) :=
  Table.find?_mapValues e.content.chips _ id

/-- A wire that ends on one chip but not on another tells them apart. -/
theorem ne_of_usesChip {w : Wire} {id id' : Name} (h : w.usesChip id = false)
    (h' : w.usesChip id' = true) : id ≠ id' := by
  intro heq
  rw [heq, h'] at h
  exact absurd h (by simp)

theorem mem_disconnectChip {id : Name} {w : Wire} :
    w ∈ (e.disconnectChip id).content.wires ↔ w ∈ e.content.wires ∧ w.usesChip id = false := by
  unfold disconnectChip withWires
  rw [List.mem_filter, Bool.not_eq_true']

/-- A chip may be placed under a new name if it is small enough. -/
theorem accepts_iff {c : Chip} : e.accepts types c = true ↔
    (c.id.isEmpty = false ∧ c.id ≠ e.owner ∧ e.content.chip? c.id = none) ∧
      (types.isStandard c.type = true ∨ (c.size types).area < e.content.size.area) := by
  unfold accepts
  have hcontains : e.content.chips.contains c.id = false ↔ e.content.chip? c.id = none := by
    unfold Table.contains Content.chip?
    simp
  simp only [Bool.and_eq_true, Bool.not_eq_true', decide_eq_true_iff, Bool.or_eq_true, hcontains,
    and_assoc]

/-! ## §4. Operations and changes. -/

theorem reroute_ok {chip : Option Name} {r : Nat × Editor} (h : e.reroute types chip = .ok r) :
    r.2 = e.rerouted types chip := by
  unfold reroute at h
  obtain ⟨⟨count, content⟩, hroute, hr⟩ := Fallible.bind_ok_iff.1 h
  obtain rfl : (count, { e with content }) = r := Except.ok.inj hr
  unfold rerouted
  rw [Board.reroute_ok hroute]

/-- Moving and turning a chip bring it onto the board and route its wires again. -/
theorem change_of_adjust {id : Name} {f : Chip → Chip} (hid : ∀ c, (f c).id = c.id)
    (htype : ∀ c, (f c).type = c.type) {r : Option Editor}
    (h : e.adjust types id (fun c => (f c).clampTo e.gridSize types) = .ok r) :
    Change types e (r.getD e) := by
  unfold adjust at h
  cases hfound : e.content.chips.find? id with
  | none =>
    rw [hfound] at h
    obtain rfl : none = r := Except.ok.inj h
    exact .refused
  | some c =>
    obtain rfl : c.id = id := Content.id_of_chip? hfound
    rw [hfound] at h
    obtain ⟨routed, hroute, hr⟩ := Fallible.bind_ok_iff.1 h
    obtain rfl : some routed.2 = r := Except.ok.inj hr
    show Change types e routed.2
    rw [reroute_ok hroute]
    exact .adjusted hfound (hid c) (htype c)

/-- Connecting pins adds a wire along its route. -/
theorem change_of_connect {a b : Pin} {layer : Int} {r : Option Editor}
    (h : e.connect types a b layer = .ok r) : Change types e (r.getD e) := by
  unfold connect at h
  cases hends : e.ends? types a b with
  | none =>
    rw [hends] at h
    obtain rfl : none = r := Except.ok.inj h
    exact .refused
  | some pins =>
    obtain ⟨source, target⟩ := pins
    rw [hends] at h
    obtain ⟨route, hroute, hr⟩ := Fallible.bind_ok_iff.1 h
    rw [Board.route_ok hroute] at hr
    obtain rfl : some (e.withWires (e.content.wires ++ [e.wired types source target layer])) = r :=
      Except.ok.inj hr
    exact .connected layer hends

/-- Filling a slot of a chip changes its constants. -/
theorem change_of_setConstant {id : Name} {key : String} {value : Constant} :
    Change types e ((e.setConstant? types id key value).getD e) := by
  unfold setConstant?
  cases hfound : e.content.chips.find? id with
  | none => exact .refused
  | some c =>
    obtain rfl : c.id = id := Content.id_of_chip? hfound
    show Change types e (Option.getD (Option.bind (c.setConstant? key value types) _) e)
    unfold Chip.setConstant?
    dsimp only
    split
    · exact .filled hfound _
    · exact .refused

/-- What an operation does, if it is carried out. -/
theorem change_of_apply {op : Operation} (h : e.apply types op = .ok e') :
    Change types e e' := by
  cases op with
  | addChip c =>
    obtain rfl : (e.addChip? types c).getD e = e' := Except.ok.inj h
    unfold addChip?
    split
    · rename_i haccepted
      exact .placed haccepted
    · exact .refused
  | removeChip id =>
    obtain rfl : (e.removeChip? id).getD e = e' := Except.ok.inj h
    unfold removeChip?
    split
    · exact .removed id
    · exact .refused
  | moveChip id pos =>
    obtain ⟨r, hr, rfl⟩ := Fallible.map_ok_iff.1 h
    exact change_of_adjust (f := ({ · with pos })) (fun _ => rfl) (fun _ => rfl) hr
  | rotateChip id turns =>
    obtain ⟨r, hr, rfl⟩ := Fallible.map_ok_iff.1 h
    exact change_of_adjust (f := (·.rotate turns)) (fun _ => rfl) (fun _ => rfl) hr
  | setConstant id key value =>
    obtain rfl : (e.setConstant? types id key value).getD e = e' := Except.ok.inj h
    exact change_of_setConstant
  | connect a b layer =>
    obtain ⟨r, hr, rfl⟩ := Fallible.map_ok_iff.1 h
    exact change_of_connect hr
  | disconnect pin =>
    obtain rfl : e.disconnect pin = e' := Except.ok.inj h
    exact .disconnected _
  | disconnectChip id =>
    obtain rfl : e.disconnectChip id = e' := Except.ok.inj h
    exact .disconnected _
  | reroute chip =>
    obtain ⟨r, hr, rfl⟩ := Fallible.map_ok_iff.1 h
    rw [reroute_ok hr]
    exact .rerouted chip
  | setSize size height =>
    obtain ⟨r, hr, hresult⟩ := Fallible.bind_ok_iff.1
      (show ((e.resized types size).reroute types none >>= fun r => Except.ok r.2) = .ok e' from h)
    obtain rfl : r.2 = e' := Except.ok.inj hresult
    rw [reroute_ok hr]
    exact .resized size height

/-! ## §5. Sessions. -/

theorem reroute_eq (hedge : 0 ≤ (e.board types).extent.y) (chip : Option Name) :
    ∃ n, e.reroute types chip = .ok (n, e.rerouted types chip) := by
  unfold reroute
  rw [Board.reroute_eq hedge]
  exact ⟨_, rfl⟩

/-- Resizing is carried out if the board will have edges; the height before it does not matter. -/
theorem setSize_eq (e : Editor) (types : TypeLookup) {size : Vec} (hsize : 0 ≤ size.y)
    (hscale : 0 ≤ e.settings.scale) :
    e.setSize types size = .ok ((e.resized types size).rerouted types none) := by
  have hedge : 0 ≤ ((e.resized types size).board types).extent.y := Int.mul_nonneg hsize hscale
  obtain ⟨n, hn⟩ := reroute_eq hedge none
  exact Fallible.bind_ok_iff.2 ⟨_, hn, rfl⟩

theorem adjust_isOk (hedge : 0 ≤ (e.board types).extent.y) (id : Name) (f : Chip → Chip) :
    ∃ r, e.adjust types id f = .ok r := by
  unfold adjust
  cases e.content.chips.find? id with
  | none => exact ⟨none, rfl⟩
  | some c =>
    have hedge' : 0 ≤ ((e.put (f c)).board types).extent.y := hedge
    obtain ⟨n, hn⟩ := reroute_eq hedge' (some id)
    dsimp only
    rw [hn]
    exact ⟨_, rfl⟩

theorem connect_isOk (hedge : 0 ≤ (e.board types).extent.y) (a b : Pin) (layer : Int) :
    ∃ r, e.connect types a b layer = .ok r := by
  unfold connect
  cases e.ends? types a b with
  | none => exact ⟨none, rfl⟩
  | some pins =>
    dsimp only
    rw [Board.route_eq hedge]
    exact ⟨_, rfl⟩

/-- On a board with edges, every operation is carried out. -/
theorem apply_isOk (types : TypeLookup) (hsize : 0 ≤ e.content.size.y) (hscale : 0 ≤ e.settings.scale)
    (op : Operation) : ∃ e', e.apply types op = .ok e' := by
  have hedge : 0 ≤ (e.board types).extent.y := Int.mul_nonneg hsize hscale
  cases op with
  | addChip c => exact ⟨_, rfl⟩
  | removeChip id => exact ⟨_, rfl⟩
  | moveChip id pos =>
    obtain ⟨r, hr⟩ := e.adjust_isOk hedge id fun c => c.moveTo pos e.gridSize types
    exact ⟨_, Fallible.map_ok_iff.2 ⟨r, hr, rfl⟩⟩
  | rotateChip id turns =>
    obtain ⟨r, hr⟩ := e.adjust_isOk hedge id fun c => (c.rotate turns).clampTo e.gridSize types
    exact ⟨_, Fallible.map_ok_iff.2 ⟨r, hr, rfl⟩⟩
  | setConstant id key value => exact ⟨_, rfl⟩
  | connect a b layer =>
    obtain ⟨r, hr⟩ := e.connect_isOk hedge a b layer
    exact ⟨_, Fallible.map_ok_iff.2 ⟨r, hr, rfl⟩⟩
  | disconnect pin => exact ⟨_, rfl⟩
  | disconnectChip id => exact ⟨_, rfl⟩
  | reroute chip =>
    obtain ⟨n, hn⟩ := e.reroute_eq hedge chip
    exact ⟨_, Fallible.map_ok_iff.2 ⟨_, hn, rfl⟩⟩
  | setSize size height =>
    exact ⟨_, e.setSize_eq types height hscale⟩

variable {P : Editor → Prop}

/-- What every change keeps, a session keeps. -/
theorem run_induction (hchange : ∀ e e', P e → Change types e e' → P e') {ops : List Operation}
    (he : P e) (h : run types e ops = .ok e') : P e' :=
  Fallible.foldlM_induction (fun e _ e' he hop => hchange e e' he (change_of_apply hop)) he h

/-- On a board with edges, a session is carried out to its end. -/
theorem run_isOk (hchange : ∀ e e', P e → Change types e e' → P e')
    (hedge : ∀ e, P e → 0 ≤ e.content.size.y ∧ 0 ≤ e.settings.scale) (ops : List Operation)
    (he : P e) : ∃ e', run types e ops = .ok e' ∧ P e' := by
  refine Fallible.foldlM_isOk (fun op _ e he => ?_) he
  obtain ⟨e', he'⟩ := apply_isOk types (hedge e he).1 (hedge e he).2 op
  exact ⟨e', he', hchange e e' he (change_of_apply he')⟩

/-! ## §6. A short session. -/

/-- A type with input `A` and output `R`. -/
def bufferType : ChipType := { ChipType.skeleton with inputs := ["A", ""], outputs := ["R", ""] }

/-- Buffers, and a type with the same ports around them. -/
def bufferTypes : TypeLookup :=
  TypeTable.lookup (.ofList [(⟨"buffer"⟩, bufferType), (⟨"top"⟩, bufferType)])

/-- A buffer is placed, wired and taken away; another one is wired and turned on its side. -/
def bufferSession : List Operation :=
  [.addChip (.ofPlace ⟨"a"⟩ ⟨"buffer"⟩ .zero),
   .connect ⟨⟨"top"⟩, true, "R"⟩ ⟨⟨"a"⟩, true, "R"⟩ 0,
   .removeChip ⟨"a"⟩,
   .addChip (.ofPlace ⟨"b"⟩ ⟨"buffer"⟩ .zero),
   .connect ⟨⟨"b"⟩, false, "A"⟩ ⟨⟨"top"⟩, false, "A"⟩ 0,
   .connect ⟨⟨"b"⟩, true, "R"⟩ ⟨⟨"top"⟩, true, "R"⟩ 0,
   -- The input is driven already.
   .connect ⟨⟨"b"⟩, true, "R"⟩ ⟨⟨"b"⟩, false, "A"⟩ 0,
   .rotateChip ⟨"b"⟩ 3]

/-- On its side, the buffer has its input outside the board and its output a way around the
corner. -/
def bufferWires : List Wire :=
  [⟨0, [], ⟨⟨"top"⟩, false, "A"⟩, ⟨⟨"b"⟩, false, "A"⟩, false, false⟩,
   ⟨0, [⟨2, 1⟩, ⟨2, 2⟩, ⟨1, 2⟩, ⟨0, 2⟩], ⟨⟨"b"⟩, true, "R"⟩, ⟨⟨"top"⟩, true, "R"⟩, false, true⟩]

theorem run_bufferSession : ∃ e,
    run bufferTypes ⟨⟨"top"⟩, .ofSize ⟨2, 2⟩, ⟨1, 10, 9⟩⟩ bufferSession = .ok e ∧
      e.content.wires = bufferWires := by
  have hrun : (run bufferTypes ⟨⟨"top"⟩, .ofSize ⟨2, 2⟩, ⟨1, 10, 9⟩⟩ bufferSession).map
      (·.content.wires) = .ok bufferWires := by cbv
  exact Fallible.map_ok_iff.1 hrun

end Editor

end LogicBoard
