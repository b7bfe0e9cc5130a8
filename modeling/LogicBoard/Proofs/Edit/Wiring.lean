/-
  LogicBoard.Proofs.Edit.Wiring
  ────────────────────────────────
  **WIRES THAT EDITING CAN MAKE.**

  Inside a type its own inputs drive and its own outputs are driven, the
  reverse of what the pins of its chips do.  An editor connects pins in either
  order, puts the driving one first and refuses a second driver; it takes the
  wires of a chip away together with the chip.  So all wires of a session run
  from a pin that drives to a pin that nothing else drives.

  Main statements:
    • `CanDrive.isEnd` — a pin that may drive another one is an end for a wire to it,
    • `WellWired.change` — every change of a content keeps it well wired,
    • `wellWired_run` — a session that starts without chips stays well wired.
-/
import LogicBoard.Proofs.Edit.Connecting

namespace LogicBoard

namespace Editor

variable {types : TypeLookup} {e e' : Editor}

/-! ## §1. Ends of wires. -/

/-- The pin exists and drives, or else is driven: outputs of chips drive and their inputs are
driven, and it is the other way round with the ports of the type itself. -/
def IsEnd (types : TypeLookup) (e : Editor) (drives : Bool) (p : Pin) : Prop :=
  (p.chip = e.owner ∧ p.output = (!drives) ∧ p.port ∈ (types.get e.owner).namedPorts p.output) ∨
    ∃ c, e.content.chip? p.chip = some c ∧ p.output = drives ∧
      p.port ∈ (types.get c.type).namedPorts p.output

/-- A pin stays where it is as long as its chip stays of its type. -/
theorem IsEnd.mono {drives : Bool} {p : Pin} (h : IsEnd types e drives p)
    (howner : e'.owner = e.owner) (hchip : ∀ c, e.content.chip? p.chip = some c →
      ∃ d, e'.content.chip? p.chip = some d ∧ d.type = c.type) :
    IsEnd types e' drives p := by
  rcases h with ⟨hown, hside, hport⟩ | ⟨c, hc, hside, hport⟩
  · exact Or.inl ⟨hown.trans howner.symm, hside, howner ▸ hport⟩
  · obtain ⟨d, hd, htype⟩ := hchip c hc
    exact Or.inr ⟨d, hd, hside, htype ▸ hport⟩

/-- An end of a wire is on the boundary or on a chip that is there. -/
theorem IsEnd.chip {drives : Bool} {p : Pin} (h : IsEnd types e drives p) :
    p.chip = e.owner ∨ ∃ c, e.content.chip? p.chip = some c := by
  rcases h with ⟨hown, -, -⟩ | ⟨c, hc, -, -⟩
  · exact Or.inl hown
  · exact Or.inr ⟨c, hc⟩

/-! ## §2. Connecting pins. -/

/-- A pin that exists drives or is driven, depending on its side and on where it is. -/
theorem IsPin.isEnd {drives : Bool} {p : Pin} (h : IsPin types e p)
    (hside : p.output = (drives ^^ decide (p.chip = e.owner))) : IsEnd types e drives p := by
  unfold IsPin at h
  by_cases howner : p.chip = e.owner
  · rw [if_pos howner] at h
    rw [decide_eq_true howner, Bool.xor_true] at hside
    exact Or.inl ⟨howner, hside, h⟩
  · rw [if_neg howner] at h
    rw [decide_eq_false howner, Bool.xor_false] at hside
    obtain ⟨c, hc, hport⟩ := h
    exact Or.inr ⟨c, hc, hside, hport⟩

/-- A connection is made from a pin that drives to one that is not driven yet. -/
theorem CanDrive.isEnd {source target : Pin} (h : CanDrive types e source target) :
    IsEnd types e true source ∧ IsEnd types e false target ∧
      target ∉ e.content.wires.map (·.target) := by
  refine ⟨h.source.isEnd ((not_isSink_iff h.source).1 h.drives),
    h.sink.1.isEnd ((isSink_iff h.sink.1).1 h.sink), fun hmem => ?_⟩
  obtain ⟨w, hw, heq⟩ := List.mem_map.1 hmem
  exact (h.free w hw).2 heq

/-! ## §3. Contents that are well wired. -/

/-- What can be expected of the content of an editor. -/
structure WellWired (types : TypeLookup) (e : Editor) : Prop where
  /-- Chips stand under their own names. -/
  keyed : ∀ id c, e.content.chip? id = some c → c.id = id
  /-- Chips have names, and none has that of the boundary. -/
  named : ∀ id c, e.content.chip? id = some c → id.isEmpty = false ∧ id ≠ e.owner
  sources : ∀ w ∈ e.content.wires, IsEnd types e true w.source
  targets : ∀ w ∈ e.content.wires, IsEnd types e false w.target
  /-- No pin is driven twice. -/
  drivenOnce : (e.content.wires.map (·.target)).Nodup

theorem wellWired_start (types : TypeLookup) (owner : Name) (size : Vec)
    (settings : RouteSettings) : WellWired types ⟨owner, .ofSize size, settings⟩ where
  keyed id c h := absurd h (by simp [Content.chip?, Content.ofSize, Table.find?_empty])
  named id c h := absurd h (by simp [Content.chip?, Content.ofSize, Table.find?_empty])
  sources w h := absurd h List.not_mem_nil
  targets w h := absurd h List.not_mem_nil
  drivenOnce := List.nodup_nil

/-- No wire ends on a chip that is not there. -/
theorem WellWired.not_usesChip (h : WellWired types e) {id : Name} (hid : id ≠ e.owner)
    (hnone : e.content.chip? id = none) {w : Wire} (hw : w ∈ e.content.wires) :
    w.usesChip id = false := by
  have hpin : ∀ {drives : Bool} {p : Pin}, IsEnd types e drives p → p.chip ≠ id := by
    intro drives p hp heq
    rcases hp.chip with howner | ⟨c, hc⟩
    · exact hid (heq.symm.trans howner)
    · rw [heq, hnone] at hc
      exact absurd hc (by simp)
  unfold Wire.usesChip
  simp [hpin (h.sources w hw), hpin (h.targets w hw)]

/-- Some wires are left, chips with wires keep their types, and new chips have names of their
own. -/
theorem WellWired.carry (h : WellWired types e) (howner : e'.owner = e.owner)
    (hwires : e'.content.wires.Sublist e.content.wires)
    (hnew : ∀ id d, e'.content.chip? id = some d → e.content.chip? id = none →
      id.isEmpty = false ∧ id ≠ e.owner)
    (hold : ∀ id c, e.content.chip? id = some c →
      (∃ w ∈ e'.content.wires, w.usesChip id = true) →
      ∃ d, e'.content.chip? id = some d ∧ d.type = c.type) : WellWired types e' where
  keyed id c hc := Content.id_of_chip? hc
  named id d hd := by
    rw [howner]
    cases hc : e.content.chip? id with
    | none => exact hnew id d hd hc
    | some c => exact h.named id c hc
  sources w hw := (h.sources w (hwires.subset hw)).mono howner fun c hc =>
    hold _ c hc ⟨w, hw, by simp [Wire.usesChip]⟩
  targets w hw := (h.targets w (hwires.subset hw)).mono howner fun c hc =>
    hold _ c hc ⟨w, hw, by simp [Wire.usesChip]⟩
  drivenOnce := h.drivenOnce.sublist (hwires.map _)

/-- Other wires between pins of the right kinds. -/
theorem WellWired.withWires (h : WellWired types e) {wires : List Wire}
    (hends : ∀ w ∈ wires, IsEnd types e true w.source ∧ IsEnd types e false w.target)
    (honce : (wires.map (·.target)).Nodup) : WellWired types (e.withWires wires) where
  keyed := h.keyed
  named := h.named
  sources w hw := (hends w hw).1
  targets w hw := (hends w hw).2
  drivenOnce := honce

/-! ## §4. Changes. -/

theorem WellWired.rerouted (h : WellWired types e) (chip : Option Name) :
    WellWired types (e.rerouted types chip) := by
  obtain ⟨wires, heq, hwires⟩ := e.rerouted_frame types chip
  rw [heq]
  refine h.withWires (fun w hw => ?_) ?_
  · -- Every wire was there before, but for its path.
    obtain ⟨v, hv, hcleared⟩ := Board.mem_rerouted (show w ∈ (e.rerouted types chip).content.wires
      from heq ▸ hw)
    have hsource : v.source = w.source :=
      (congrArg Wire.source hcleared : v.cleared.source = w.cleared.source)
    have htarget : v.target = w.target :=
      (congrArg Wire.target hcleared : v.cleared.target = w.cleared.target)
    exact ⟨hsource ▸ h.sources v hv, htarget ▸ h.targets v hv⟩
  · have htargets := congrArg (List.map Wire.target) hwires
    rw [List.map_map, List.map_map] at htargets
    exact (show wires.map Wire.target = e.content.wires.map Wire.target from htargets) ▸ h.drivenOnce

theorem WellWired.put (h : WellWired types e) {c d : Chip} (hc : e.content.chip? c.id = some c)
    (hid : d.id = c.id) (htype : d.type = c.type) : WellWired types (e.put d) := by
  refine h.carry rfl (List.Sublist.refl _) (fun id d' hd' hnone => ?_) (fun id c' hc' _ => ?_)
  · rw [chip?_put] at hd'
    split at hd'
    · rename_i heq
      rw [← heq, hid, hc] at hnone
      exact absurd hnone (by simp)
    · exact absurd (hnone.symm.trans hd') (by simp)
  · rw [chip?_put]
    split
    · rename_i heq
      rw [← heq, hid, hc] at hc'
      obtain rfl := Option.some.inj hc'
      exact ⟨d, rfl, htype⟩
    · exact ⟨c', hc', rfl⟩

theorem WellWired.place (h : WellWired types e) {c : Chip} (hc : e.accepts types c = true)
    (grid : Vec) : WellWired types (e.put (c.clampTo grid types)) := by
  obtain ⟨⟨hnamed, howner, hfree⟩, -⟩ := accepts_iff.1 hc
  refine h.carry rfl (List.Sublist.refl _) (fun id d hd hnone => ?_) (fun id c' hc' _ => ?_)
  · rw [chip?_put] at hd
    split at hd
    · rename_i heq
      exact heq ▸ ⟨hnamed, howner⟩
    · exact absurd (hnone.symm.trans hd) (by simp)
  · -- The name is new, so no chip is replaced.
    refine ⟨c', ?_, rfl⟩
    rw [chip?_put, if_neg, hc']
    rintro rfl
    rw [show e.content.chip? (c.clampTo grid types).id = none from hfree] at hc'
    exact absurd hc' (by simp)

theorem WellWired.remove (h : WellWired types e) (id : Name) :
    WellWired types ({ e with content := e.content.remove id }.disconnectChip id) := by
  refine h.carry rfl List.filter_sublist (fun id' d hd hnone => ?_) (fun id' c hc hused => ?_)
  · change (e.content.remove id).chip? id' = some d at hd
    rw [chip?_remove] at hd
    split at hd
    · exact absurd hd (by simp)
    · exact absurd (hnone.symm.trans hd) (by simp)
  · -- The wires of the chip are gone, so a chip with wires is another one.
    obtain ⟨w, hw, huses⟩ := hused
    have hne : id ≠ id' := ne_of_usesChip (mem_disconnectChip.1 hw).2 huses
    refine ⟨c, ?_, rfl⟩
    change (e.content.remove id).chip? id' = some c
    rw [chip?_remove, if_neg hne, hc]

theorem WellWired.resized (h : WellWired types e) (size : Vec) :
    WellWired types (e.resized types size) := by
  refine h.carry rfl (List.Sublist.refl _) (fun id d hd hnone => ?_) (fun id c hc _ => ?_)
  · rw [chip?_resized, hnone] at hd
    exact absurd hd (by simp)
  · rw [chip?_resized, hc]
    exact ⟨_, rfl, rfl⟩

/-- Every change of a content keeps it well wired. -/
theorem WellWired.change (h : WellWired types e) (hchange : Change types e e') :
    WellWired types e' := by
  cases hchange with
  | refused => exact h
  | placed haccepted => exact h.place haccepted _
  | removed id => exact h.remove id
  | @adjusted c d hfound hid htype =>
    exact (h.put (d := d.clampTo e.gridSize types) hfound hid htype).rerouted _
  | filled hfound constants => exact h.put hfound rfl rfl
  | connected layer hends =>
    obtain ⟨hsource, htarget, hfree⟩ := (ends?_eq_some_iff.1 hends).1.isEnd
    refine h.withWires (fun w hw => ?_) ?_
    · rcases List.mem_append.1 hw with hw | hw
      · exact ⟨h.sources w hw, h.targets w hw⟩
      · obtain rfl := List.mem_singleton.1 hw
        exact ⟨hsource, htarget⟩
    · rw [List.map_append]
      refine List.nodup_append.2 ⟨h.drivenOnce, List.nodup_singleton _, ?_⟩
      rintro p hp q hq rfl
      obtain rfl := List.mem_singleton.1 hq
      exact hfree hp
  | disconnected keep =>
    refine h.carry rfl List.filter_sublist (fun id d hd hnone => ?_) (fun id c hc _ => ?_)
    · exact absurd (hnone.symm.trans hd) (by simp)
    · exact ⟨c, hc, rfl⟩
  | rerouted chip => exact h.rerouted chip
  | resized size height => exact (h.resized size).rerouted none

/-! ## §5. Sessions. -/

/-- A session that starts without chips stays well wired, and none of its wires ends on a chip that
is not there any more. -/
theorem wellWired_run {owner : Name} {size : Vec} {settings : RouteSettings}
    {ops : List Operation} (h : run types ⟨owner, .ofSize size, settings⟩ ops = .ok e) :
    e.owner = owner ∧ WellWired types e ∧
      ∀ id, id ≠ owner → e.content.chip? id = none →
        ∀ w ∈ e.content.wires, w.usesChip id = false := by
  have hrun : e.owner = owner ∧ WellWired types e := by
    refine run_induction (P := fun e => e.owner = owner ∧ WellWired types e) ?_
      ⟨rfl, wellWired_start types owner size settings⟩ h
    rintro e e' ⟨howner, he⟩ hchange
    exact ⟨hchange.same.1.trans howner, he.change hchange⟩
  refine ⟨hrun.1, hrun.2, fun id hid hnone w hw => ?_⟩
  exact hrun.2.not_usesChip (hrun.1 ▸ hid) hnone hw

/-- The wires of the buffer that was taken away are gone, and the other one was driven once. -/
theorem wellWired_buffer : ∃ e,
    run bufferTypes ⟨⟨"top"⟩, .ofSize ⟨2, 2⟩, ⟨1, 10, 9⟩⟩ bufferSession = .ok e ∧
      e.content.wires = bufferWires ∧ e.owner = ⟨"top"⟩ ∧ WellWired bufferTypes e ∧
      ∀ id, id ≠ ⟨"top"⟩ → e.content.chip? id = none →
        ∀ w ∈ e.content.wires, w.usesChip id = false := by
  obtain ⟨e, he, hwires⟩ := run_bufferSession
  exact ⟨e, he, hwires, wellWired_run he⟩

end Editor

end LogicBoard
