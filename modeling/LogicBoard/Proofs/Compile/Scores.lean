/-
  LogicBoard.Proofs.Compile.Scores
  ────────────────────────────────
  **SCORES ARE EXACT UNTIL THEY ARE CUT OFF.**

  The rounds that raise scores can be run with any way to add two scores.
  Cutting numbers off at the largest score turns their sums into the sums that
  stop there, so it makes no difference whether scores are cut off at every
  sum or once after all rounds.  What holds of exact scores thus carries over:
  they never fall, and nothing but wires from other chips raises them.

  Main statements:
    • `addScores_cutOff` — cutting off before and after a sum,
    • `scores_plan` — the scores of a plan are the exact ones, cut off,
    • `exactScores_monotone` — exact scores never fall,
    • `atRest_exactScores` — a chip that only the boundary drives stays at 0,
    • `scores_cutOff` — all that is to be said of the scores of a plan.
-/
import LogicBoard.Proofs.Compile.Plan
import Mathlib.Logic.Function.Iterate
import Mathlib.Order.Monotone.Basic

namespace LogicBoard.Content

/-! ## §1. Rounds with any sum. -/

/-- The score of a chip, 0 if it has none. -/
def scoreIn (scores : Table Name Nat) (id : Name) : Nat := (scores.find? id).getD 0

section AnySum

variable (c : Content) (add : Nat → Nat → Nat)

/-- The sum of the scores of the chips that drive inputs of a chip, one for each wire. -/
def gainBy (scores : Table Name Nat) (id : Name) : Nat :=
  ((c.wiresInto id).map fun w => scoreIn scores w.source.chip).foldl add 0

/-- Raises the score of one chip by its gain. -/
def raiseBy (scores : Table Name Nat) (id : Name) : Table Name Nat :=
  match scores.find? id with
  | none => scores
  | some score => scores.insert id (add score (c.gainBy add scores id))

/-- Raises every chip in turn. -/
def roundBy (scores : Table Name Nat) : Table Name Nat := c.live.foldl (c.raiseBy add) scores

theorem find?_raiseBy (scores : Table Name Nat) (id id' : Name) :
    (c.raiseBy add scores id).find? id' =
      if id = id' then (scores.find? id).map (add · (c.gainBy add scores id))
      else scores.find? id' := by
  unfold raiseBy
  cases h : scores.find? id with
  | none =>
    by_cases hid : id = id'
    · rw [if_pos hid, ← hid, h]
      rfl
    · rw [if_neg hid]
  | some score => rw [Table.find?_insert, Option.map_some]

end AnySum

/-- The rounds of a plan are those with the sum of scores. -/
theorem scoresAfter_eq (c : Content) (rounds : Nat) (scores : Table Name Nat) :
    c.scoresAfter scores rounds = (c.roundBy addScores)^[rounds] scores := by
  induction rounds generalizing scores with
  | zero => rfl
  | succ n ih => exact ih (c.roundBy addScores scores)

/-- The scores after some rounds in which scores are added as natural numbers are. -/
def exactScores (c : Content) (owner : Name) (seed rounds : Nat) : Table Name Nat :=
  (c.roundBy (· + ·))^[rounds] (c.seedScores owner seed)

/-! ## §2. Cutting off. -/

/-- A score that is not larger than the largest one. -/
def cutOff (score : Nat) : Nat := min score largestScore

theorem addScores_cutOff (a b : Nat) : addScores (cutOff a) (cutOff b) = cutOff (a + b) := by
  unfold addScores cutOff
  omega

/-- The sum that stops at the largest score is the sum, cut off. -/
theorem foldl_addScores_cutOff (scores : List Nat) (first : Nat) :
    (scores.map cutOff).foldl addScores (cutOff first)
      = cutOff (scores.foldl (· + ·) first) := by
  rw [List.foldl_map]
  exact List.foldl_hom cutOff addScores_cutOff

theorem scoreIn_cutOff (scores : Table Name Nat) (id : Name) :
    scoreIn (scores.mapValues cutOff) id = cutOff (scoreIn scores id) := by
  unfold scoreIn
  rw [Table.find?_mapValues]
  cases scores.find? id <;> rfl

theorem gainBy_cutOff (c : Content) (scores : Table Name Nat) (id : Name) :
    c.gainBy addScores (scores.mapValues cutOff) id = cutOff (c.gainBy (· + ·) scores id) := by
  have hscores : ((c.wiresInto id).map fun w => scoreIn (scores.mapValues cutOff) w.source.chip)
      = ((c.wiresInto id).map fun w => scoreIn scores w.source.chip).map cutOff := by
    rw [List.map_map]
    exact List.map_congr_left fun w _ => scoreIn_cutOff scores w.source.chip
  unfold gainBy
  rw [hscores]
  exact foldl_addScores_cutOff _ 0

theorem raiseBy_cutOff (c : Content) (scores : Table Name Nat) (id : Name) :
    c.raiseBy addScores (scores.mapValues cutOff) id
      = (c.raiseBy (· + ·) scores id).mapValues cutOff := by
  refine Table.ext_find? fun id' => ?_
  rw [Table.find?_mapValues, find?_raiseBy, find?_raiseBy, gainBy_cutOff]
  by_cases hid : id = id'
  · -- The chip that is raised gets a sum of two scores that are cut off.
    rw [if_pos hid, if_pos hid, Table.find?_mapValues, Option.map_map, Option.map_map]
    exact congrArg (Option.map · (scores.find? id)) (funext fun a => addScores_cutOff a _)
  · rw [if_neg hid, if_neg hid, Table.find?_mapValues]

/-- Cutting off before a round comes to the same as cutting off after it. -/
theorem roundBy_cutOff (c : Content) :
    Function.Semiconj (Table.mapValues · cutOff) (c.roundBy (· + ·)) (c.roundBy addScores) := by
  intro scores
  exact (List.foldl_hom (Table.mapValues · cutOff) fun s id => c.raiseBy_cutOff s id).symm

theorem find?_seedScores (c : Content) (owner : Name) (seed : Nat) (id : Name) :
    (c.seedScores owner seed).find? id =
      if id ∈ c.live then some (if c.isFed owner id then seed else 0) else none :=
  Table.find?_ofList_map c.live _ id

/-- A seed that is a score is not cut off. -/
theorem seedScores_cutOff (c : Content) (owner : Name) {seed : Nat} (h : seed ≤ largestScore) :
    (c.seedScores owner seed).mapValues cutOff = c.seedScores owner seed := by
  refine Table.ext_find? fun id => ?_
  rw [Table.find?_mapValues, find?_seedScores]
  by_cases hlive : id ∈ c.live
  · rw [if_pos hlive, Option.map_some]
    split
    · exact congrArg some (Nat.min_eq_left h)
    · rfl
  · rw [if_neg hlive]
    rfl

/-- The scores of a plan are the exact ones, cut off after all rounds. -/
theorem scores_plan (c : Content) (owner : Name) {settings : CompileSettings}
    (h : settings.seed ≤ largestScore) :
    (c.plan owner settings).scores
      = (c.exactScores owner settings.seed settings.rounds).mapValues cutOff := by
  show c.scoresAfter (c.seedScores owner settings.seed) settings.rounds = _
  -- The seeds are not cut off, so the rounds may as well begin with what is left of them.
  rw [scoresAfter_eq, ← c.seedScores_cutOff owner h]
  exact (c.roundBy_cutOff.iterate_right settings.rounds (c.seedScores owner settings.seed)).symm

/-! ## §3. Exact scores. -/

/-- Exact scores after one more round. -/
theorem exactScores_succ (c : Content) (owner : Name) (seed rounds : Nat) :
    c.exactScores owner seed (rounds + 1)
      = c.roundBy (· + ·) (c.exactScores owner seed rounds) :=
  Function.iterate_succ_apply' _ _ _

theorem scoreIn_le_raiseBy (c : Content) (scores : Table Name Nat) (id id' : Name) :
    scoreIn scores id' ≤ scoreIn (c.raiseBy (· + ·) scores id) id' := by
  unfold scoreIn
  rw [find?_raiseBy]
  by_cases hid : id = id'
  · rw [if_pos hid, hid]
    cases scores.find? id' with
    | none => exact Nat.zero_le _
    | some score => exact Nat.le_add_right _ _
  · rw [if_neg hid]

theorem scoreIn_le_roundBy (c : Content) (scores : Table Name Nat) (id : Name) :
    scoreIn scores id ≤ scoreIn (c.roundBy (· + ·) scores) id := by
  unfold roundBy
  -- By induction on the chips that are still to be raised, whichever these are.
  generalize c.live = ids
  induction ids generalizing scores with
  | nil => exact Nat.le_refl _
  | cons first rest ih =>
    rw [List.foldl_cons]
    exact (c.scoreIn_le_raiseBy scores first id).trans (ih _)

/-- Exact scores never fall from one round to the next. -/
theorem exactScores_monotone (c : Content) (owner : Name) (seed : Nat) (id : Name) :
    Monotone fun rounds => scoreIn (c.exactScores owner seed rounds) id := by
  refine monotone_nat_of_le_succ fun rounds => ?_
  rw [exactScores_succ]
  exact c.scoreIn_le_roundBy _ id

/-- The boundary has no score, and the chip has the score 0. -/
structure AtRest (owner id : Name) (scores : Table Name Nat) : Prop where
  boundary : scores.find? owner = none
  chip : scores.find? id = some 0

/-- A chip that only the boundary drives gains nothing. -/
theorem AtRest.gainBy_eq {c : Content} {owner id : Name} {scores : Table Name Nat}
    (h : AtRest owner id scores) (hwires : ∀ w ∈ c.wiresInto id, w.source.chip = owner) :
    c.gainBy (· + ·) scores id = 0 := by
  unfold gainBy
  rw [← List.sum_eq_foldl, List.sum_eq_zero_iff_forall_eq_nat]
  intro score hscore
  obtain ⟨w, hw, rfl⟩ := List.mem_map.1 hscore
  unfold scoreIn
  rw [hwires w hw, h.boundary]
  rfl

theorem AtRest.raiseBy {c : Content} {owner id : Name} {scores : Table Name Nat}
    (h : AtRest owner id scores) (hwires : ∀ w ∈ c.wiresInto id, w.source.chip = owner)
    (id' : Name) : AtRest owner id (c.raiseBy (· + ·) scores id') := by
  constructor
  case boundary =>
    rw [find?_raiseBy]
    by_cases hid : id' = owner
    · rw [if_pos hid, hid, h.boundary]
      rfl
    · rw [if_neg hid, h.boundary]
  case chip =>
    rw [find?_raiseBy]
    by_cases hid : id' = id
    · rw [if_pos hid, hid, h.chip, h.gainBy_eq hwires]
      rfl
    · rw [if_neg hid, h.chip]

theorem AtRest.roundBy {c : Content} {owner id : Name} {scores : Table Name Nat}
    (h : AtRest owner id scores) (hwires : ∀ w ∈ c.wiresInto id, w.source.chip = owner) :
    AtRest owner id (c.roundBy (· + ·) scores) := by
  unfold Content.roundBy
  generalize c.live = ids
  induction ids generalizing scores with
  | nil => exact h
  | cons first rest ih => exact ih (h.raiseBy hwires first)

/-- Such a chip stays at rest if no chip has the name of the boundary. -/
theorem atRest_exactScores {c : Content} {owner id : Name} (howner : c.chips.contains owner = false)
    (hlive : id ∈ c.live) (hwires : ∀ w ∈ c.wiresInto id, w.source.chip = owner)
    (seed rounds : Nat) : AtRest owner id (c.exactScores owner seed rounds) := by
  induction rounds with
  | zero =>
    constructor
    case boundary =>
      have hout : owner ∉ c.live := fun hin => by
        rw [contains_of_live hin] at howner
        exact absurd howner (by decide)
      show (c.seedScores owner seed).find? owner = none
      rw [find?_seedScores, if_neg hout]
    case chip =>
      have hfed : c.isFed owner id = false := by
        simpa [isFed] using hwires
      show (c.seedScores owner seed).find? id = some 0
      rw [find?_seedScores, if_pos hlive, hfed]
      rfl
  | succ n ih =>
    rw [exactScores_succ]
    exact ih.roundBy hwires

/-- A chip that another chip drives begins with the seed. -/
theorem seed_le_exactScores {c : Content} {owner id : Name} (hlive : id ∈ c.live)
    (hwire : ∃ w ∈ c.wiresInto id, w.source.chip ≠ owner) (seed rounds : Nat) :
    seed ≤ scoreIn (c.exactScores owner seed rounds) id := by
  have hfed : c.isFed owner id = true := by
    simpa [isFed] using hwire
  have hstart : scoreIn (c.exactScores owner seed 0) id = seed := by
    show scoreIn (c.seedScores owner seed) id = seed
    unfold scoreIn
    rw [find?_seedScores, if_pos hlive, hfed]
    rfl
  calc seed = scoreIn (c.exactScores owner seed 0) id := hstart.symm
    _ ≤ scoreIn (c.exactScores owner seed rounds) id :=
      c.exactScores_monotone owner seed id (Nat.zero_le rounds)

/-! ## §4. The scores of plans. -/

theorem score_plan (c : Content) (owner : Name) (settings : CompileSettings)
    (h : settings.seed ≤ largestScore) (id : Name) :
    (c.plan owner settings).score id
      = cutOff (scoreIn (c.exactScores owner settings.seed settings.rounds) id) := by
  rw [← scoreIn_cutOff, ← c.scores_plan owner h]
  rfl

theorem cutOff_monotone : Monotone cutOff := fun _ _ h => min_le_min_right _ h

/-- The scores of a plan are the exact ones, cut off at the largest score.  More rounds never make
a score fall.  If no chip has the name of the boundary, a chip with wires has the score 0 if all
wires into its inputs come from the boundary, and at least the seed if one comes from elsewhere. -/
theorem scores_cutOff (c : Content) (owner : Name) (settings : CompileSettings)
    (hseed : settings.seed ≤ largestScore) :
    (c.plan owner settings).scores
        = (c.exactScores owner settings.seed settings.rounds).mapValues (min · largestScore) ∧
      (∀ id, Monotone fun rounds => (c.plan owner { settings with rounds }).score id) ∧
      (c.chips.contains owner = false → ∀ id ∈ c.live,
        ∃ score, (c.plan owner settings).scores.find? id = some score ∧
          ((∀ w ∈ c.wiresInto id, w.source.chip = owner) → score = 0) ∧
          ((∃ w ∈ c.wiresInto id, w.source.chip ≠ owner) → settings.seed ≤ score)) := by
  refine ⟨c.scores_plan owner hseed, fun id => ?_, fun howner id hlive => ?_⟩
  · have hscore : (fun rounds => (c.plan owner { settings with rounds }).score id)
        = fun rounds => cutOff (scoreIn (c.exactScores owner settings.seed rounds) id) :=
      funext fun rounds => c.score_plan owner { settings with rounds } hseed id
    rw [hscore]
    exact cutOff_monotone.comp (c.exactScores_monotone owner settings.seed id)
  · obtain ⟨score, hscore⟩ := Table.contains_iff.1 (contains_scores_plan.2 hlive)
    have hexact := c.score_plan owner settings hseed id
    unfold Plan.score at hexact
    rw [hscore, Option.getD_some] at hexact
    refine ⟨score, hscore, fun hwires => ?_, fun hwire => ?_⟩
    · have hrest := atRest_exactScores howner hlive hwires settings.seed settings.rounds
      rw [hexact, scoreIn, hrest.chip]
      rfl
    · rw [hexact]
      exact le_min (seed_le_exactScores hlive hwire settings.seed settings.rounds) hseed

/-- The boundary drives `c`, which drives `a`; `a` and `b` drive each other. -/
def eddy : Content :=
  .ofChips ⟨4, 4⟩
    [.ofPlace ⟨"a"⟩ ⟨"and"⟩ .zero, .ofPlace ⟨"b"⟩ ⟨"not"⟩ .zero, .ofPlace ⟨"c"⟩ ⟨"not"⟩ .zero]
    [.between ⟨⟨"top"⟩, false, "A"⟩ ⟨⟨"c"⟩, false, "A"⟩ 0,
     .between ⟨⟨"c"⟩, true, "R"⟩ ⟨⟨"a"⟩, false, "A"⟩ 0,
     .between ⟨⟨"a"⟩, true, "R"⟩ ⟨⟨"b"⟩, false, "A"⟩ 0,
     .between ⟨⟨"b"⟩, true, "R"⟩ ⟨⟨"a"⟩, false, "B"⟩ 0,
     .between ⟨⟨"b"⟩, true, "R"⟩ ⟨⟨"top"⟩, true, "R"⟩ 0]

/-- Two rounds are enough for the scores to be cut off. -/
def eddySettings : CompileSettings := { rounds := 2, seed := 0x4000000000000000 }

theorem scores_eddy :
    (eddySettings.seed ≤ largestScore ∧ eddy.chips.contains ⟨"top"⟩ = false ∧
      ⟨"a"⟩ ∈ eddy.live ∧ ⟨"c"⟩ ∈ eddy.live ∧
      (∃ w ∈ eddy.wiresInto ⟨"a"⟩, w.source.chip ≠ ⟨"top"⟩) ∧
      (∀ w ∈ eddy.wiresInto ⟨"c"⟩, w.source.chip = ⟨"top"⟩)) ∧
    largestScore < scoreIn (eddy.exactScores ⟨"top"⟩ eddySettings.seed eddySettings.rounds) ⟨"a"⟩ ∧
    (eddy.plan ⟨"top"⟩ eddySettings).scores
      = (eddy.exactScores ⟨"top"⟩ eddySettings.seed eddySettings.rounds).mapValues
        (min · largestScore) ∧
    (∃ score, (eddy.plan ⟨"top"⟩ eddySettings).scores.find? ⟨"a"⟩ = some score ∧
      eddySettings.seed ≤ score) ∧
    (eddy.plan ⟨"top"⟩ eddySettings).scores.find? ⟨"c"⟩ = some 0 := by
  have hseed : eddySettings.seed ≤ largestScore := by decide
  have howner : eddy.chips.contains ⟨"top"⟩ = false := by decide
  have hlive : eddy.live = [⟨"a"⟩, ⟨"b"⟩, ⟨"c"⟩] := by decide
  have ha : (⟨"a"⟩ : Name) ∈ eddy.live := by rw [hlive]; decide
  have hc : (⟨"c"⟩ : Name) ∈ eddy.live := by rw [hlive]; decide
  have hfromChips : ∃ w ∈ eddy.wiresInto ⟨"a"⟩, w.source.chip ≠ ⟨"top"⟩ := by decide
  have hfromBoundary : ∀ w ∈ eddy.wiresInto ⟨"c"⟩, w.source.chip = ⟨"top"⟩ := by decide
  obtain ⟨hscores, -, hstart⟩ := scores_cutOff eddy ⟨"top"⟩ eddySettings hseed
  obtain ⟨score, hscore, -, hleast⟩ := hstart howner ⟨"a"⟩ ha
  obtain ⟨still, hstill, hzero, -⟩ := hstart howner ⟨"c"⟩ hc
  refine ⟨⟨hseed, howner, ha, hc, hfromChips, hfromBoundary⟩, by decide, hscores,
    ⟨score, hscore, hleast hfromChips⟩, ?_⟩
  rw [hstill, hzero hfromBoundary]

end LogicBoard.Content
