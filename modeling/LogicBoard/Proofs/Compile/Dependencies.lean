/-
  LogicBoard.Proofs.Compile.Dependencies
  ────────────────────────────────
  **THE TYPES THAT A TYPE NEEDS.**

  A type uses the composite types of its wired chips.  The discovery of
  types looks at every type that can be reached from the root once, so its
  graph is the use relation cut down to what the root needs.

  Main statements:
    • `meetAll_spec` — what looking at the chips of one type adds,
    • `discover_spec` — the invariant of the discovery leads to its result,
    • `dependencies_exact` — unknown types are found exactly where they are
      needed, the graph is exact, and its order is one exactly if no type
      contains itself.
-/
import LogicBoard.Compile.Dependencies
import LogicBoard.Proofs.Design.Content
import LogicBoard.Proofs.Digraph.TargetsFirst

namespace LogicBoard

open Relation

namespace TypeTable

/-! ## §1. Use. -/

/-- The type is known and composite. -/
def IsComposite (types : TypeTable) (u : Name) : Prop :=
  ∃ t, types.find? u = some t ∧ t.inlineCode? = none

/-- A wired chip of type `t` has the composite type `u`. -/
def Uses (types : TypeTable) (t u : Name) : Prop :=
  ∃ body, types.find? t = some body ∧
    ∃ chip, body.content.Wired chip ∧ chip.type = u ∧ types.IsComposite u

/-- A wired chip of type `t` has a type that is not known. -/
def UsesUnknown (types : TypeTable) (t : Name) (chip : Chip) : Prop :=
  ∃ body, types.find? t = some body ∧ body.content.Wired chip ∧ types.find? chip.type = none

/-- The root and all that can be reached from it. -/
def Needs (types : TypeTable) (root : Name) : Name → Prop := ReflTransGen types.Uses root

theorem isComposite_iff {types : TypeTable} {u : Name} {t : ChipType}
    (h : types.find? u = some t) : types.IsComposite u ↔ t.isComposite = true := by
  unfold IsComposite ChipType.isComposite
  rw [h]
  simp

/-- What a known type uses are the composite types of its wired chips. -/
theorem uses_iff {types : TypeTable} {owner u : Name} {t : ChipType}
    (ht : types.find? owner = some t) :
    types.Uses owner u ↔ ∃ c ∈ t.content.wiredChips, c.type = u ∧ types.IsComposite u := by
  constructor
  · rintro ⟨body, hbody, c, hc, hcu⟩
    obtain rfl : t = body := Option.some.inj (ht.symm.trans hbody)
    exact ⟨c, Content.mem_wiredChips.2 hc, hcu⟩
  · rintro ⟨c, hc, hcu⟩
    exact ⟨t, ht, c, Content.mem_wiredChips.1 hc, hcu⟩

theorem usesUnknown_iff {types : TypeTable} {owner : Name} {t : ChipType} {c : Chip}
    (ht : types.find? owner = some t) :
    types.UsesUnknown owner c ↔ c ∈ t.content.wiredChips ∧ types.find? c.type = none := by
  constructor
  · rintro ⟨body, hbody, hc, hnone⟩
    obtain rfl : t = body := Option.some.inj (ht.symm.trans hbody)
    exact ⟨Content.mem_wiredChips.2 hc, hnone⟩
  · rintro ⟨hc, hnone⟩
    exact ⟨t, ht, Content.mem_wiredChips.1 hc, hnone⟩

/-- A type that is not known uses nothing. -/
theorem not_uses {types : TypeTable} {owner : Name} (hnone : types.find? owner = none) (u : Name) :
    ¬ types.Uses owner u := by
  rintro ⟨body, hbody, -⟩
  rw [hnone] at hbody
  exact absurd hbody (by simp)

theorem not_usesUnknown {types : TypeTable} {owner : Name} (hnone : types.find? owner = none)
    (c : Chip) : ¬ types.UsesUnknown owner c := by
  rintro ⟨body, hbody, -⟩
  rw [hnone] at hbody
  exact absurd hbody (by simp)

/-! ## §2. Looking at the chips of one type. -/

/-- What looking at some chips of `owner` adds to a discovery. -/
structure Met (types : TypeTable) (owner : Name) (chips : List Chip) (d d' : Discovery) :
    Prop where
  known : ∀ c ∈ chips, types.find? c.type ≠ none
  proper : d'.1.Proper
  edge_iff : ∀ t u, d'.1.Edge t u ↔
    d.1.Edge t u ∨ t = owner ∧ ∃ c ∈ chips, c.type = u ∧ types.IsComposite u
  /-- The types that are new are the ones still to be looked at. -/
  fresh : ∃ new, d'.1.nodes.Perm (new ++ d.1.nodes) ∧ d'.2 = new ++ d.2 ∧
    ∀ u ∈ new, ∃ c ∈ chips, c.type = u ∧ types.IsComposite u

theorem Met.refl {types : TypeTable} {owner : Name} {d : Discovery} (hd : d.1.Proper) :
    Met types owner [] d d where
  known := by simp
  proper := hd
  edge_iff := by simp
  fresh := ⟨[], by simp, by simp, by simp⟩

/-- One chip of a composite type. -/
theorem Met.composite {types : TypeTable} {owner : Name} {c : Chip} {d : Discovery}
    (hd : d.1.Proper) (howner : owner ∈ d.1.nodes) (hc : types.IsComposite c.type) :
    Met types owner [c] d ((d.1.addNode c.type).addEdge owner c.type,
      if c.type ∈ d.1.nodes then d.2 else c.type :: d.2) where
  known := by
    obtain ⟨t, ht, -⟩ := hc
    simp [ht]
  proper := by
    refine (hd.addNode c.type).addEdge ?_ ?_
    · exact Digraph.mem_addNode_nodes.2 (Or.inl howner)
    · exact Digraph.mem_addNode_nodes.2 (Or.inr rfl)
  edge_iff := by
    intro t u
    rw [Digraph.edge_addEdge]
    have hnode : (d.1.addNode c.type).Edge t u ↔ d.1.Edge t u := by simp [Digraph.Edge]
    rw [hnode]
    constructor
    · rintro (h | ⟨rfl, rfl⟩)
      · exact Or.inl h
      · exact Or.inr ⟨rfl, c, List.mem_singleton_self c, rfl, hc⟩
    · rintro (h | ⟨rfl, c', hc', rfl, -⟩)
      · exact Or.inl h
      · obtain rfl : c' = c := List.mem_singleton.1 hc'
        exact Or.inr ⟨rfl, rfl⟩
  fresh := by
    -- A type that is in the graph was queued when it came there.
    by_cases hold : c.type ∈ d.1.nodes
    · exact ⟨[], by simp [Digraph.addNode, hold], by simp [hold], by simp⟩
    · refine ⟨[c.type], ?_, by simp [hold], ?_⟩
      · simp [Digraph.addNode, hold]
      · intro u hu
        obtain rfl := List.mem_singleton.1 hu
        exact ⟨c, List.mem_singleton_self c, rfl, hc⟩

/-- One chip of a standard type. -/
theorem Met.standard {types : TypeTable} {owner : Name} {c : Chip} {d : Discovery} {t : ChipType}
    (hd : d.1.Proper) (ht : types.find? c.type = some t) (hc : ¬ types.IsComposite c.type) :
    Met types owner [c] d d where
  known := by simp [ht]
  proper := hd
  edge_iff := by
    intro t' u
    constructor
    · exact Or.inl
    · rintro (h | ⟨-, c', hc', rfl, hcomp⟩)
      · exact h
      · obtain rfl : c' = c := List.mem_singleton.1 hc'
        exact absurd hcomp hc
  fresh := ⟨[], by simp, by simp, by simp⟩

theorem Met.cons {types : TypeTable} {owner : Name} {c : Chip} {chips : List Chip}
    {d d' d'' : Discovery} (h : Met types owner [c] d d') (h' : Met types owner chips d' d'') :
    Met types owner (c :: chips) d d'' where
  known := by
    intro b hb
    rcases List.mem_cons.1 hb with rfl | hb
    · exact h.known b (List.mem_singleton_self b)
    · exact h'.known b hb
  proper := h'.proper
  edge_iff := by
    intro t u
    rw [h'.edge_iff, h.edge_iff]
    simp only [List.mem_cons, exists_eq_or_imp]
    tauto
  fresh := by
    obtain ⟨new, hperm, hwork, hnew⟩ := h.fresh
    obtain ⟨new', hperm', hwork', hnew'⟩ := h'.fresh
    refine ⟨new' ++ new, ?_, ?_, ?_⟩
    · rw [List.append_assoc]
      exact hperm'.trans (hperm.append_left new')
    · rw [hwork', hwork, List.append_assoc]
    · intro u hu
      rcases List.mem_append.1 hu with hu | hu
      · obtain ⟨b, hb, hbu⟩ := hnew' u hu
        exact ⟨b, List.mem_cons_of_mem _ hb, hbu⟩
      · obtain ⟨b, hb, hbu⟩ := hnew u hu
        obtain rfl := List.mem_singleton.1 hb
        exact ⟨b, List.mem_cons_self, hbu⟩

/-- What looking at one chip does. -/
theorem meet_spec (types : TypeTable) {owner : Name} {d : Discovery} (c : Chip)
    (hd : d.1.Proper) (howner : owner ∈ d.1.nodes) :
    match types.meet owner d c with
    | .error e => types.find? c.type = none ∧ e = .unknownType c.type owner c.id
    | .ok d' => Met types owner [c] d d' := by
  unfold meet
  cases ht : types.find? c.type with
  | none => exact ⟨rfl, rfl⟩
  | some t =>
    by_cases hcomp : t.isComposite = true
    · simp only [hcomp, if_true]
      exact Met.composite hd howner ((isComposite_iff ht).2 hcomp)
    · simp only [hcomp]
      exact Met.standard hd ht fun h => hcomp ((isComposite_iff ht).1 h)

/-- What looking at the chips of a type does. -/
theorem meetAll_spec (types : TypeTable) (owner : Name) (chips : List Chip) :
    ∀ d : Discovery, d.1.Proper → owner ∈ d.1.nodes →
      match chips.foldlM (types.meet owner) d with
      | .error e =>
        ∃ c ∈ chips, types.find? c.type = none ∧ e = .unknownType c.type owner c.id
      | .ok d' => Met types owner chips d d' := by
  induction chips with
  | nil =>
    intro d hd _
    exact Met.refl hd
  | cons c chips ih =>
    intro d hd howner
    have hone := meet_spec types c hd howner
    rw [List.foldlM_cons]
    cases hmeet : types.meet owner d c with
    | error e =>
      rw [hmeet] at hone
      exact ⟨c, List.mem_cons_self, hone⟩
    | ok d' =>
      rw [hmeet] at hone
      -- Nodes only come in, so the owner stays one for the chips that follow.
      have howner' : owner ∈ d'.1.nodes := by
        obtain ⟨new, hperm, -⟩ := hone.fresh
        exact hperm.mem_iff.2 (List.mem_append_right _ howner)
      have hrest := ih d' hone.proper howner'
      show match chips.foldlM (types.meet owner) d' with
        | .error e => _
        | .ok d'' => _
      cases hall : chips.foldlM (types.meet owner) d' with
      | error e =>
        rw [hall] at hrest
        obtain ⟨b, hb, hbe⟩ := hrest
        exact ⟨b, List.mem_cons_of_mem _ hb, hbe⟩
      | ok d'' =>
        rw [hall] at hrest
        exact hone.cons hrest

/-! ## §3. The discovery. -/

/-- The invariant of the discovery: `done` lists the types that were looked at. -/
structure Discovering (types : TypeTable) (root : Name) (done : List Name) (d : Discovery) :
    Prop where
  proper : d.1.Proper
  root_mem : root ∈ d.1.nodes
  split : d.1.nodes.Perm (done ++ d.2)
  sound : ∀ t ∈ d.1.nodes, types.Needs root t
  known : ∀ t ∈ d.1.nodes, t = root ∨ types.IsComposite t
  edge_iff : ∀ t u, d.1.Edge t u ↔ t ∈ done ∧ types.Uses t u
  no_unknown : ∀ t ∈ done, ∀ c, ¬ types.UsesUnknown t c

theorem Discovering.initial (types : TypeTable) (root : Name) :
    Discovering types root [] (⟨[root], []⟩, [root]) where
  proper := ⟨List.nodup_singleton root, List.nodup_nil, fun h => by simp [Digraph.Edge] at h,
    fun h => by simp [Digraph.Edge] at h⟩
  root_mem := List.mem_singleton_self root
  split := List.Perm.refl _
  sound := by
    intro t ht
    obtain rfl := List.mem_singleton.1 ht
    exact ReflTransGen.refl
  known := by
    intro t ht
    exact Or.inl (List.mem_singleton.1 ht)
  edge_iff := by simp [Digraph.Edge]
  no_unknown := by simp

/-- What is to be looked at is in the graph. -/
theorem Discovering.owner_mem {types : TypeTable} {root owner : Name} {done work : List Name}
    {g : Digraph Name} (h : Discovering types root done (g, owner :: work)) : owner ∈ g.nodes :=
  h.split.mem_iff.2 (List.mem_append_right _ List.mem_cons_self)

/-- A type that is not known adds nothing. -/
theorem Discovering.lookPast {types : TypeTable} {root owner : Name} {done work : List Name}
    {g : Digraph Name} (h : Discovering types root done (g, owner :: work))
    (hnone : types.find? owner = none) :
    Discovering types root (owner :: done) (g, work) where
  proper := h.proper
  root_mem := h.root_mem
  split := h.split.trans List.perm_middle
  sound := h.sound
  known := h.known
  edge_iff := by
    intro t u
    rw [h.edge_iff, List.mem_cons]
    constructor
    · rintro ⟨ht, hu⟩
      exact ⟨Or.inr ht, hu⟩
    · rintro ⟨rfl | ht, hu⟩
      · exact absurd hu (not_uses hnone u)
      · exact ⟨ht, hu⟩
  no_unknown := by
    intro t ht c
    rcases List.mem_cons.1 ht with rfl | ht
    · exact not_usesUnknown hnone c
    · exact h.no_unknown t ht c

/-- Looking at the chips of a type that is known. -/
theorem Discovering.lookAt {types : TypeTable} {root owner : Name} {done work : List Name}
    {g : Digraph Name} {t : ChipType} {d : Discovery}
    (h : Discovering types root done (g, owner :: work)) (ht : types.find? owner = some t)
    (hmet : Met types owner t.content.wiredChips (g, work) d) :
    Discovering types root (owner :: done) d := by
  obtain ⟨new, hperm, hwork, hnew⟩ := hmet.fresh
  have hnodes : ∀ u ∈ d.1.nodes, u ∈ g.nodes ∨ types.Uses owner u := by
    intro u hu
    rcases List.mem_append.1 (hperm.mem_iff.1 hu) with hu | hu
    · exact Or.inr ((uses_iff ht).2 (hnew u hu))
    · exact Or.inl hu
  exact {
    proper := hmet.proper
    root_mem := hperm.mem_iff.2 (List.mem_append_right _ h.root_mem)
    split := by
      rw [hwork]
      calc d.1.nodes.Perm (new ++ g.nodes) := hperm
        _ |>.Perm (new ++ (done ++ owner :: work)) := h.split.append_left new
        _ |>.Perm (new ++ owner :: (done ++ work)) := List.perm_middle.append_left new
        _ |>.Perm (owner :: (new ++ (done ++ work))) := List.perm_middle
        _ |>.Perm (owner :: done ++ (new ++ work)) :=
          (List.perm_append_comm_assoc new done work).cons owner
    sound := by
      intro u hu
      rcases hnodes u hu with hu | hu
      · exact h.sound u hu
      · exact (h.sound owner h.owner_mem).tail hu
    known := by
      intro u hu
      rcases hnodes u hu with hu | hu
      · exact h.known u hu
      · obtain ⟨-, -, -, -, -, hcomp⟩ := hu
        exact Or.inr hcomp
    edge_iff := by
      intro a u
      rw [hmet.edge_iff, h.edge_iff, ← uses_iff ht, List.mem_cons]
      constructor
      · rintro (⟨ha, hu⟩ | ⟨rfl, hu⟩)
        · exact ⟨Or.inr ha, hu⟩
        · exact ⟨Or.inl rfl, hu⟩
      · rintro ⟨rfl | ha, hu⟩
        · exact Or.inr ⟨rfl, hu⟩
        · exact Or.inl ⟨ha, hu⟩
    no_unknown := by
      intro a ha c
      rcases List.mem_cons.1 ha with rfl | ha
      · intro hunknown
        obtain ⟨hc, hnone⟩ := (usesUnknown_iff ht).1 hunknown
        exact hmet.known c hc hnone
      · exact h.no_unknown a ha c }

/-- There are no more types than known ones and the root. -/
theorem Discovering.length_le {types : TypeTable} {root : Name} {done : List Name} {d : Discovery}
    (h : Discovering types root done d) : done.length + d.2.length ≤ types.size + 1 := by
  -- All nodes but the root are types of the table, and they are listed once.
  have hsub : d.1.nodes ⊆ root :: types.keys := by
    intro t ht
    rcases h.known t ht with rfl | ⟨body, hbody, -⟩
    · exact List.mem_cons_self
    · exact List.mem_cons_of_mem _ (Table.mem_keys_iff.2 ⟨body, hbody⟩)
  have hlen := (List.subperm_of_subset h.proper.nodup hsub).length_le
  rw [h.split.length_eq, List.length_append, List.length_cons] at hlen
  simpa [Table.keys, Table.size] using hlen

/-- Once as many types were looked at as there can be, nothing is left. -/
theorem Discovering.work_eq_nil {types : TypeTable} {root : Name} {done work : List Name}
    {g : Digraph Name} (h : Discovering types root done (g, work))
    (hdone : types.size + 1 ≤ done.length) : work = [] := by
  have hlen : done.length + work.length ≤ types.size + 1 := h.length_le
  exact List.length_eq_zero_iff.1 (by omega)

/-- The graph of the composite types that the root needs. -/
structure IsDependencyGraph (types : TypeTable) (root : Name) (g : Digraph Name) : Prop where
  nodes_nodup : g.nodes.Nodup
  edges_nodup : g.edges.Nodup
  mem_nodes : ∀ t, t ∈ g.nodes ↔ types.Needs root t
  mem_edges : ∀ t u, (t, u) ∈ g.edges ↔ types.Needs root t ∧ types.Uses t u

/-- Once nothing is left to be looked at, the graph is complete. -/
theorem Discovering.isDependencyGraph {types : TypeTable} {root : Name} {done : List Name}
    {g : Digraph Name} (h : Discovering types root done (g, [])) :
    IsDependencyGraph types root g ∧ ∀ t, types.Needs root t → ∀ c, ¬ types.UsesUnknown t c := by
  have hdone : ∀ t, t ∈ g.nodes ↔ t ∈ done := fun t => by simpa using h.split.mem_iff (a := t)
  have hnodes : ∀ t, t ∈ g.nodes ↔ types.Needs root t := by
    intro t
    constructor
    · exact h.sound t
    · -- By induction on the way from the root: every type on it was looked at.
      intro ht
      induction ht with
      | refl => exact h.root_mem
      | tail _ huse ih =>
        exact h.proper.target_mem ((h.edge_iff _ _).2 ⟨(hdone _).1 ih, huse⟩)
  refine ⟨⟨h.proper.nodup, h.proper.edges_nodup, hnodes, ?_⟩, ?_⟩
  · intro t u
    rw [← hnodes, hdone]
    exact h.edge_iff t u
  · intro t ht
    exact h.no_unknown t ((hdone t).1 ((hnodes t).2 ht))

theorem discover_nil (types : TypeTable) (fuel : Nat) (g : Digraph Name) :
    types.discover fuel (g, []) = .ok g := by
  cases fuel <;> rfl

theorem discover_cons_none {types : TypeTable} {owner : Name} (hnone : types.find? owner = none)
    (fuel : Nat) (g : Digraph Name) (work : List Name) :
    types.discover (fuel + 1) (g, owner :: work) = types.discover fuel (g, work) := by
  rw [discover, hnone]

theorem discover_cons_some {types : TypeTable} {owner : Name} {t : ChipType}
    (ht : types.find? owner = some t) (fuel : Nat) (g : Digraph Name) (work : List Name) :
    types.discover (fuel + 1) (g, owner :: work)
      = t.content.wiredChips.foldlM (types.meet owner) (g, work) >>= types.discover fuel := by
  rw [discover, ht]

/-- The discovery finds the whole graph, or a type that is needed and not known. -/
theorem discover_spec {types : TypeTable} {root : Name} :
    ∀ (fuel : Nat) (done : List Name) (d : Discovery), Discovering types root done d →
      types.size + 1 ≤ done.length + fuel →
      match types.discover fuel d with
      | .error e => ∃ owner c, types.Needs root owner ∧ types.UsesUnknown owner c ∧
          e = .unknownType c.type owner c.id
      | .ok g => IsDependencyGraph types root g ∧
          ∀ t, types.Needs root t → ∀ c, ¬ types.UsesUnknown t c := by
  intro fuel
  induction fuel with
  | zero =>
    rintro done ⟨g, work⟩ h hfuel
    -- The steps taken so far have used up all types.
    obtain rfl := h.work_eq_nil hfuel
    rw [discover_nil]
    exact h.isDependencyGraph
  | succ fuel ih =>
    rintro done ⟨g, work⟩ h hfuel
    cases work with
    | nil =>
      rw [discover_nil]
      exact h.isDependencyGraph
    | cons owner work =>
      -- Whatever becomes of this type, one more type has been looked at.
      have hfuel' : types.size + 1 ≤ (owner :: done).length + fuel := by
        rw [List.length_cons]
        omega
      cases ht : types.find? owner with
      | none =>
        rw [discover_cons_none ht]
        exact ih (owner :: done) (g, work) (h.lookPast ht) hfuel'
      | some t =>
        have hall := meetAll_spec types owner t.content.wiredChips (g, work) h.proper h.owner_mem
        rw [discover_cons_some ht]
        cases hmet : t.content.wiredChips.foldlM (types.meet owner) (g, work) with
        | error e =>
          rw [hmet] at hall
          obtain ⟨c, hc, hnone, he⟩ := hall
          exact ⟨owner, c, h.sound owner h.owner_mem, (usesUnknown_iff ht).2 ⟨hc, hnone⟩, he⟩
        | ok d =>
          rw [hmet] at hall
          exact ih (owner :: done) d (h.lookAt ht hall) hfuel'

/-! ## §4. Orders of types. -/

/-- An order of the types that the root needs in which each comes after those it uses. -/
structure IsBuildOrder (types : TypeTable) (root : Name) (order : List Name) : Prop where
  nodup : order.Nodup
  mem_iff : ∀ t, t ∈ order ↔ types.Needs root t
  uses_before : ∀ t u, types.Needs root t → types.Uses t u → order.idxOf u < order.idxOf t
  root_last : order.getLast? = some root

/-- The types, in rising order, that use each other with a type that contains itself. -/
structure IsCycle (types : TypeTable) (root : Name) (group : List Name) : Prop where
  rising : group.Pairwise (· < ·)
  strong : ∃ t, types.Needs root t ∧ TransGen types.Uses t t ∧
    ∀ u, u ∈ group ↔ ReflTransGen types.Uses t u ∧ ReflTransGen types.Uses u t

theorem IsDependencyGraph.proper {types : TypeTable} {root : Name} {g : Digraph Name}
    (h : IsDependencyGraph types root g) : g.Proper where
  nodup := h.nodes_nodup
  edges_nodup := h.edges_nodup
  source_mem := fun hedge => (h.mem_nodes _).2 ((h.mem_edges _ _).1 hedge).1
  target_mem := fun hedge => by
    obtain ⟨ht, hu⟩ := (h.mem_edges _ _).1 hedge
    exact (h.mem_nodes _).2 (ht.tail hu)

/-- From a needed type the graph and the use relation lead to the same types. -/
theorem IsDependencyGraph.reaches_iff {types : TypeTable} {root : Name} {g : Digraph Name}
    (h : IsDependencyGraph types root g) {t u : Name} (ht : types.Needs root t) :
    g.Reaches t u ↔ ReflTransGen types.Uses t u := by
  constructor
  · intro htu
    exact ReflTransGen.mono (fun a b hab => ((h.mem_edges a b).1 hab).2) t u htu
  · intro htu
    induction htu with
    | refl => exact ReflTransGen.refl
    | tail hway huse ih => exact ih.tail ((h.mem_edges _ _).2 ⟨ht.trans hway, huse⟩)

theorem IsDependencyGraph.onCycle_iff {types : TypeTable} {root : Name} {g : Digraph Name}
    (h : IsDependencyGraph types root g) {t : Name} :
    g.OnCycle t ↔ types.Needs root t ∧ TransGen types.Uses t t := by
  unfold Digraph.OnCycle
  rw [TransGen.tail'_iff, TransGen.tail'_iff]
  constructor
  · rintro ⟨u, htu, hut⟩
    have ht : types.Needs root t := (h.mem_nodes t).1 (h.proper.target_mem hut)
    exact ⟨ht, u, (h.reaches_iff ht).1 htu, ((h.mem_edges u t).1 hut).2⟩
  · rintro ⟨ht, u, htu, hut⟩
    exact ⟨u, (h.reaches_iff ht).2 htu, (h.mem_edges u t).2 ⟨ht.trans htu, hut⟩⟩

/-- Listing the types of the graph gives a build order, or a cycle. -/
theorem IsDependencyGraph.buildOrder_spec {types : TypeTable} {root : Name} {g : Digraph Name}
    (h : IsDependencyGraph types root g) :
    match buildOrder g with
    | .ok order => IsBuildOrder types root order
    | .error e => ∃ group, e = .cycle group ∧ IsCycle types root group := by
  unfold buildOrder
  cases horder : g.targetsFirst with
  | ok order =>
    have hfirst := Digraph.targetsFirst_ok h.proper horder
    have hroot : root ∈ g.nodes := (h.mem_nodes root).2 ReflTransGen.refl
    exact {
      nodup := hfirst.perm.nodup_iff.2 h.nodes_nodup
      mem_iff := fun t => hfirst.perm.mem_iff.trans (h.mem_nodes t)
      uses_before := fun t u ht hu => hfirst.idxOf_lt ((h.mem_edges t u).2 ⟨ht, hu⟩)
      root_last := hfirst.getLast?_eq h.proper hroot fun t ht =>
        (h.reaches_iff ReflTransGen.refl).2 ((h.mem_nodes t).1 ht) }
  | error group =>
    obtain ⟨t, ht, hcyc, rfl⟩ := Digraph.targetsFirst_error h.proper horder
    obtain ⟨hneed, hself⟩ := h.onCycle_iff.1 hcyc
    refine ⟨_, rfl, sortedNames_rising _, t, hneed, hself, fun u => ?_⟩
    rw [mem_sortedNames, Digraph.mem_component h.proper ht, h.reaches_iff hneed]
    constructor
    · rintro ⟨htu, hut⟩
      exact ⟨htu, (h.reaches_iff (hneed.trans htu)).1 hut⟩
    · rintro ⟨htu, hut⟩
      exact ⟨htu, (h.reaches_iff (hneed.trans htu)).2 hut⟩

theorem IsBuildOrder.no_cycle {types : TypeTable} {root : Name} {order : List Name}
    (h : IsBuildOrder types root order) {t : Name} (ht : types.Needs root t) :
    ¬ TransGen types.Uses t t := by
  -- Along every way from the type, places in the order fall.
  have hfall : ∀ u, TransGen types.Uses t u → order.idxOf u < order.idxOf t := by
    intro u hu
    induction hu with
    | single huse => exact h.uses_before _ _ ht huse
    | tail hway huse ih =>
      exact Nat.lt_trans (h.uses_before _ _ (ht.trans hway.to_reflTransGen) huse) ih
  intro hself
  exact Nat.lt_irrefl _ (hfall t hself)

theorem IsDependencyGraph.buildOrder_isOk_iff {types : TypeTable} {root : Name} {g : Digraph Name}
    (h : IsDependencyGraph types root g) :
    (∃ order, buildOrder g = .ok order) ↔
      ∀ t, types.Needs root t → ¬ TransGen types.Uses t t := by
  have hspec := h.buildOrder_spec
  cases horder : buildOrder g with
  | ok order =>
    rw [horder] at hspec
    constructor
    · intro _ t ht
      exact hspec.no_cycle ht
    · intro _
      exact ⟨order, rfl⟩
  | error e =>
    rw [horder] at hspec
    obtain ⟨group, -, -, t, ht, hself, -⟩ := hspec
    constructor
    · rintro ⟨order, hok⟩
      exact absurd hok (by simp)
    · intro hno
      exact absurd hself (hno t ht)

/-! ## §5. The analysis as a whole. -/

/-- **The analysis of dependencies is exact.**  It fails exactly if a type that the root needs has
a wired chip of an unknown type, and names such a chip.  Otherwise its graph is the use relation
on the types that the root needs; these can be ordered exactly if none of them contains itself,
and if one does, the group reported is all that contains each other with it. -/
theorem dependencies_exact (types : TypeTable) (root : Name) :
    ((∃ e, types.dependencies root = .error e) ↔
      ∃ owner chip, types.Needs root owner ∧ types.UsesUnknown owner chip) ∧
    match types.dependencies root with
    | .error e => ∃ owner chip, types.Needs root owner ∧ types.UsesUnknown owner chip ∧
        e = .unknownType chip.type owner chip.id
    | .ok g => IsDependencyGraph types root g ∧
        ((∃ order, buildOrder g = .ok order) ↔
          ∀ t, types.Needs root t → ¬ TransGen types.Uses t t) ∧
        match buildOrder g with
        | .ok order => IsBuildOrder types root order
        | .error e => ∃ group, e = .cycle group ∧ IsCycle types root group := by
  have hspec := discover_spec (types.size + 1) [] _ (Discovering.initial types root) (by simp)
  unfold dependencies
  cases hresult : types.discover (types.size + 1) (⟨[root], []⟩, [root]) with
  | error e =>
    rw [hresult] at hspec
    obtain ⟨owner, chip, hneed, hunknown, he⟩ := hspec
    refine ⟨?_, owner, chip, hneed, hunknown, he⟩
    constructor
    · intro _
      exact ⟨owner, chip, hneed, hunknown⟩
    · intro _
      exact ⟨e, rfl⟩
  | ok g =>
    rw [hresult] at hspec
    obtain ⟨hgraph, hknown⟩ := hspec
    refine ⟨?_, hgraph, hgraph.buildOrder_isOk_iff, hgraph.buildOrder_spec⟩
    constructor
    · rintro ⟨e, he⟩
      exact absurd he (by simp)
    · rintro ⟨owner, chip, hneed, hunknown⟩
      exact absurd hunknown (hknown owner hneed chip)

end TypeTable

end LogicBoard
