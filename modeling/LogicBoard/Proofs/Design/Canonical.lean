/-
  LogicBoard.Proofs.Design.Canonical
  ────────────────────────────────
  **CANONICAL DEFINITIONS.**

  What `ChipType.canonical` is to achieve is said here without the steps by
  which it does so.  Bringing a definition into canonical form a second time
  changes nothing, because trimming and upper case are settled after one go.

  Main statements:
    • `isCanonical_canonical` — the canonical form is canonical,
    • `canonical_eq` — a canonical definition is its own canonical form.
-/
import Mathlib.Data.List.Nodup
import LogicBoard.Design.Chip
import LogicBoard.Proofs.Text.Case

namespace LogicBoard.ChipType

/-! ## §1. What is canonical. -/

/-- No blanks around the text, and upper case throughout. -/
structure IsSpelled (s : String) : Prop where
  trimmed : Text.trim s = s
  upper : Text.upper s = s

/-- The one form in which a definition is kept. -/
structure IsCanonical (t : ChipType) : Prop where
  width : 1 ≤ t.size.x ∧ t.size.x ≤ 1000
  height : 1 ≤ t.size.y ∧ t.size.y ≤ 1000
  /-- Both sides have one position more than there are columns. -/
  positions : ∀ output, ((t.ports output).length : Int) = t.size.x + 1
  ports : ∀ output, ∀ port ∈ t.ports output, IsSpelled port
  constants : ∀ c ∈ t.constants, IsSpelled c ∧ c ≠ ""
  distinct : t.constants.Nodup
  contentSize : t.content.size = t.size

/-! ## §2. Spelling. -/

theorem isSpelled_spelled (s : String) : IsSpelled (spelled s) where
  trimmed := Text.trim_upper_trim s
  upper := Text.upper_upper _

theorem IsSpelled.spelled_eq {s : String} (h : IsSpelled s) : spelled s = s := by
  unfold spelled
  rw [h.trimmed, h.upper]

theorem map_spelled {l : List String} (h : ∀ s ∈ l, IsSpelled s) : l.map spelled = l :=
  (List.map_congr_left fun s hs => (h s hs).spelled_eq).trans (List.map_id l)

/-! ## §3. Ports. -/

theorem length_fitPorts (n : Nat) (ports : List String) : (fitPorts n ports).length = n := by
  unfold fitPorts
  rw [List.length_map, List.length_append, List.length_take, List.length_replicate]
  omega

theorem isSpelled_of_mem_fitPorts {n : Nat} {ports : List String} {port : String}
    (h : port ∈ fitPorts n ports) : IsSpelled port := by
  obtain ⟨s, -, rfl⟩ := List.mem_map.1 h
  exact isSpelled_spelled s

theorem fitPorts_eq {ports : List String} (h : ∀ port ∈ ports, IsSpelled port) :
    fitPorts ports.length ports = ports := by
  unfold fitPorts
  rw [List.take_length, Nat.sub_self, List.replicate_zero, List.append_nil, map_spelled h]

/-! ## §4. Constant slots. -/

theorem mem_addSlot {slots : List String} {name s : String} (h : s ∈ addSlot slots name) :
    s ∈ slots ∨ (s = name ∧ s ≠ "") := by
  unfold addSlot at h
  split at h
  · exact Or.inl h
  · rename_i hadd
    rw [List.mem_append, List.mem_singleton] at h
    refine h.imp_right fun hs => ⟨hs, ?_⟩
    rintro rfl
    exact hadd (by simp [← hs])

theorem nodup_addSlot {slots : List String} (h : slots.Nodup) (name : String) :
    (addSlot slots name).Nodup := by
  unfold addSlot
  split
  · exact h
  · rename_i hadd
    have hnew : name ∉ slots := fun hmem => hadd (by simp [hmem])
    exact List.nodup_append.2 ⟨h, List.nodup_singleton _, fun a ha b hb =>
      fun heq => hnew (List.mem_singleton.1 hb ▸ heq ▸ ha)⟩

/-- Slots are taken from the list, and each of them once. -/
theorem foldl_addSlot (l : List String) : (l.foldl addSlot []).Nodup ∧
    ∀ s ∈ l.foldl addSlot [], s ∈ l ∧ s ≠ "" := by
  refine List.foldlRecOn l addSlot (motive := fun slots => slots.Nodup ∧
    ∀ s ∈ slots, s ∈ l ∧ s ≠ "") ⟨List.nodup_nil, by simp⟩ ?_
  intro slots h name hname
  refine ⟨nodup_addSlot h.1 name, fun s hs => ?_⟩
  rcases mem_addSlot hs with hold | ⟨rfl, hne⟩
  · exact h.2 s hold
  · exact ⟨hname, hne⟩

/-- Slots that are different anyway are all taken. -/
theorem foldl_addSlot_eq {l : List String} (hne : ∀ s ∈ l, s ≠ "") (hnodup : l.Nodup) :
    l.foldl addSlot [] = l := by
  -- In general, slots that are different from those before them are added to these.
  have hfold : ∀ (l slots : List String), (∀ s ∈ l, s ≠ "") → (slots ++ l).Nodup →
      l.foldl addSlot slots = slots ++ l := by
    intro l
    induction l with
    | nil => intro slots _ _; exact (List.append_nil slots).symm
    | cons s rest ih =>
      intro slots hne hnodup
      have hs : s ∉ slots := fun hmem =>
        (List.nodup_append.1 hnodup).2.2 s hmem s List.mem_cons_self rfl
      have hadd : addSlot slots s = slots ++ [s] := by
        unfold addSlot
        rw [if_neg]
        simp [hs, hne s List.mem_cons_self]
      rw [List.foldl_cons, hadd, ih _ (fun s hs => hne s (List.mem_cons_of_mem _ hs))]
      · simp
      · simpa using hnodup
  exact hfold l [] hne hnodup

/-! ## §5. Definitions. -/

/-- The canonical form is canonical. -/
theorem isCanonical_canonical (t : ChipType) : t.canonical.IsCanonical := by
  have hwidth : 1 ≤ t.canonical.size.x ∧ t.canonical.size.x ≤ 1000 := by
    show 1 ≤ max (min t.size.x 1000) 1 ∧ max (min t.size.x 1000) 1 ≤ 1000
    omega
  have hheight : 1 ≤ t.canonical.size.y ∧ t.canonical.size.y ≤ 1000 := by
    show 1 ≤ max (min t.size.y 1000) 1 ∧ max (min t.size.y 1000) 1 ≤ 1000
    omega
  have hports : ∀ output, t.canonical.ports output
      = fitPorts (t.canonical.size.x.toNat + 1) (t.ports output) := by
    intro output
    cases output <;> rfl
  have hslots := foldl_addSlot (t.constants.map spelled)
  constructor
  case width => exact hwidth
  case height => exact hheight
  case positions =>
    intro output
    rw [hports, length_fitPorts]
    omega
  case ports =>
    intro output port hport
    rw [hports] at hport
    exact isSpelled_of_mem_fitPorts hport
  case constants =>
    intro c hc
    obtain ⟨hmem, hne⟩ := hslots.2 c hc
    obtain ⟨s, -, rfl⟩ := List.mem_map.1 hmem
    exact ⟨isSpelled_spelled s, hne⟩
  case distinct => exact hslots.1
  case contentSize => rfl

/-- A canonical definition is its own canonical form. -/
theorem canonical_eq {t : ChipType} (h : t.IsCanonical) : t.canonical = t := by
  have hsize : t.size.clampVec .one largestSize = t.size := by
    obtain ⟨hwidth, hheight⟩ := And.intro h.width h.height
    unfold Vec.clampVec
    ext
    · show max (min t.size.x 1000) 1 = t.size.x
      omega
    · show max (min t.size.y 1000) 1 = t.size.y
      omega
  have hfit : ∀ output, fitPorts (t.size.x.toNat + 1) (t.ports output) = t.ports output := by
    intro output
    have hlength : t.size.x.toNat + 1 = (t.ports output).length := by
      have hpositions := h.positions output
      have hwidth := h.width
      omega
    rw [hlength, fitPorts_eq (h.ports output)]
  have hslots : (t.constants.map spelled).foldl addSlot [] = t.constants := by
    rw [map_spelled fun s hs => (h.constants s hs).1]
    exact foldl_addSlot_eq (fun s hs => (h.constants s hs).2) h.distinct
  have hcontent : { t.content with size := t.size } = t.content := by
    rw [← h.contentSize]
  unfold canonical
  dsimp only
  rw [hsize, hslots, hcontent]
  show { t with
    inputs := fitPorts (t.size.x.toNat + 1) (t.ports false)
    outputs := fitPorts (t.size.x.toNat + 1) (t.ports true) } = t
  rw [hfit, hfit]
  rfl

end LogicBoard.ChipType
