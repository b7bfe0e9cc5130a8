/-
  LogicBoard.Proofs.Registry.Sessions
  ────────────────────────────────
  **SESSIONS THAT SHARE A DIRECTORY.**

  Any number of registries work on one directory, and their operations follow
  one another in any order.  A registry only learns of what others do when it
  catches up; that it then misses nothing is due to the digests, provided
  that different records have different ones.

  Main statements:
    • `IsSound.did`, `IsSound.opened` — what one event does,
    • `sessions_converge` — a registry that catches up has exactly the types
      that are stored, and a type that is in the hands of one session is
      stored as this session has last left it.
-/
import LogicBoard.Proofs.Registry.Directory

namespace LogicBoard

open DirectoryStore (IsDiskError)

/-! ## §1. Events. -/

/-- A directory on a disk, and the registries that were opened on it. -/
structure SharedDirectory where
  disk : Disk
  dir : String
  stem : String
  sessions : List (Registry DirectoryStore)

namespace SharedDirectory

/-- The directory, for somebody who has not seen it yet. -/
def store (w : SharedDirectory) : DirectoryStore := .ofDir w.disk w.dir w.stem

/-- A session, which finds the disk as it is now. -/
def session? (w : SharedDirectory) (i : Nat) : Option (Registry DirectoryStore) :=
  w.sessions[i]?.map (·.withDisk w.disk)

/-- The definition of a type that a session has in memory. -/
def held (w : SharedDirectory) (i : Nat) (name : Name) : Option ChipType :=
  (w.session? i).bind (·.custom.find? name)

/-- A session is opened, or one of those that are there carries out an operation. -/
inductive Event where
  | opened (settings : Settings)
  | did (i : Nat) (op : Registry.Operation)

/-- The directory once a session is done with something. -/
def leave (w : SharedDirectory) (i : Nat) (r : Registry DirectoryStore) : SharedDirectory :=
  { w with disk := r.store.disk, sessions := w.sessions.set i r }

/-- What happens at an event. -/
def step (w : SharedDirectory) : Event → Except StoreError Unit × SharedDirectory
  | .opened settings =>
    match Registry.load settings w.store with
    | .error e => (.error e, w)
    | .ok r => (.ok (), { w with sessions := w.sessions ++ [r] })
  | .did i op =>
    match w.session? i with
    | none => (.ok (), w)
    | some r =>
      let (result, r) := r.apply op
      (result, w.leave i r)

/-- An event, and what there was before it. -/
structure Moment where
  before : SharedDirectory
  event : Event

namespace Moment

def result (m : Moment) : Except StoreError Unit := (m.before.step m.event).1

def after (m : Moment) : SharedDirectory := (m.before.step m.event).2

/-- The types that a session defines or forgets at the moment. -/
def touched (m : Moment) : List Name :=
  match m.event with
  | .opened _ => []
  | .did i op => (m.before.session? i).elim [] op.touched

/-- The definition that is left of these types. -/
def left (m : Moment) : Option ChipType :=
  match m.event with
  | .opened _ => none
  | .did i op => (m.before.session? i).bind op.left

/-- The session that does something at the moment. -/
def actor? (m : Moment) : Option Nat :=
  match m.event with
  | .opened _ => none
  | .did i _ => some i

/-- An operation can be carried out and the disk does not fail. -/
structure IsAdmissible (m : Moment) : Prop where
  operation : ∀ i op r, m.event = .did i op → m.before.session? i = some r → op.IsAdmissible r
  names : ∀ name ∈ m.touched, m.before.store.IsRecordName name
  disk : ¬ IsDiskError m.result

/-- If a session has just caught up, then it has the types whose records are on the disk, and these
are the types that a new session would have. -/
def IsConverged (m : Moment) : Prop :=
  ∀ i r, m.event = .did i .sync → m.after.session? i = some r →
    (∀ name, m.after.store.IsRecordName name →
      m.after.store.onDisk name = (r.custom.find? name).map ChipType.recordText) ∧
    ∀ settings, ∃ fresh, Registry.load settings m.after.store = .ok fresh ∧ fresh.custom = r.custom

end Moment

/-- All moments of a run. -/
def trace (w : SharedDirectory) : List Event → List Moment
  | [] => []
  | event :: rest => ⟨w, event⟩ :: (Moment.after ⟨w, event⟩).trace rest

/-- What there is after a run. -/
def run (w : SharedDirectory) (events : List Event) : SharedDirectory :=
  events.foldl (fun w event => (w.step event).2) w

/-- The type has got the definition at one of the moments. -/
def HasDefined (moments : List Moment) (name : Name) (t : ChipType) : Prop :=
  ∃ m ∈ moments, name ∈ m.touched ∧ m.left = some t

/-- The definition that was last left of the type; none before it was touched. -/
def lastLeft (name : Name) (moments : List Moment) (last : Option ChipType) : Option ChipType :=
  moments.foldl (fun last m => if name ∈ m.touched then m.left else last) last

/-! ## §2. Sessions after an event. -/

variable {w : SharedDirectory} {i : Nat} {r r' : Registry DirectoryStore}

theorem session?_append (w : SharedDirectory) (r : Registry DirectoryStore)
    (hdisk : r.store.disk = w.disk) (j : Nat) :
    session? { w with sessions := w.sessions ++ [r] } j
      = if j = w.sessions.length then some r else w.session? j := by
  unfold session?
  dsimp only
  by_cases hj : j = w.sessions.length
  · subst hj
    rw [if_pos rfl, List.getElem?_concat_length, ← hdisk]
    rfl
  · rw [if_neg hj]
    by_cases hlt : j < w.sessions.length
    · rw [List.getElem?_append_left hlt]
    · rw [List.getElem?_eq_none (by simp; omega), List.getElem?_eq_none (by omega)]

theorem session?_leave (h : w.session? i = some r) (r' : Registry DirectoryStore) (j : Nat) :
    (w.leave i r').session? j
      = if j = i then some r' else (w.session? j).map (·.withDisk r'.store.disk) := by
  obtain ⟨d, hd, -⟩ := Option.map_eq_some_iff.1 h
  unfold session? leave
  dsimp only
  rw [List.getElem?_set]
  by_cases hj : j = i
  · subst hj
    rw [if_pos rfl, if_pos rfl, if_pos (List.getElem?_eq_some_iff.1 hd).1]
    rfl
  · rw [if_neg hj, if_neg (Ne.symm hj), Option.map_map]
    rfl

theorem held_leave (h : w.session? i = some r) (r' : Registry DirectoryStore) (j : Nat)
    (name : Name) :
    (w.leave i r').held j name = if j = i then r'.custom.find? name else w.held j name := by
  unfold held
  rw [session?_leave h]
  split
  · rfl
  · cases w.session? j <;> rfl

theorem held_eq (h : w.session? i = some r) (name : Name) : w.held i name = r.custom.find? name := by
  unfold held
  rw [h]
  rfl

theorem step_did (h : w.session? i = some r) (op : Registry.Operation) :
    w.step (.did i op) = ((r.apply op).1, w.leave i (r.apply op).2) := by
  unfold step
  dsimp only
  rw [h]

theorem touched_did (h : w.session? i = some r) (op : Registry.Operation) :
    Moment.touched ⟨w, .did i op⟩ = op.touched r := by
  unfold Moment.touched
  dsimp only
  rw [h]
  rfl

theorem left_did (h : w.session? i = some r) (op : Registry.Operation) :
    Moment.left ⟨w, .did i op⟩ = op.left r := by
  unfold Moment.left
  dsimp only
  rw [h]
  rfl

/-- All sessions find records under the same names. -/
theorem isRecordName_run {name : Name} (h : w.store.IsRecordName name) (events : List Event) :
    (w.run events).store.IsRecordName name := by
  refine List.foldlRecOn events _ (motive := fun w : SharedDirectory => w.store.IsRecordName name) h ?_
  intro w hw event _
  cases event with
  | opened settings =>
    unfold step
    dsimp only
    split <;> exact hw
  | did i op =>
    unfold step
    dsimp only
    split <;> exact hw

/-! ## §3. One event. -/

/-- Different records of one type have different digests. -/
def HaveDistinctDigests (known : Name → ChipType → Prop) : Prop :=
  ∀ name t u, known name t → known name u →
    Digest.ofText t.recordText = Digest.ofText u.recordText → t.recordText = u.recordText

theorem HasDefined.mono {moments more : List Moment} {name : Name} {t : ChipType}
    (h : HasDefined moments name t) (hmore : moments ⊆ more) : HasDefined more name t := by
  obtain ⟨m, hm, hdefined⟩ := h
  exact ⟨m, hmore hm, hdefined⟩

/-- The types are those in the directory, all sessions have in memory what they have seen there,
and all definitions are known. -/
structure IsSound (w : SharedDirectory) (known : Name → ChipType → Prop) (types : TypeTable) :
    Prop where
  supplies : Registry.Supplies w.store types
  follows : ∀ i r, w.session? i = some r → r.Follows w.store
  stored : ∀ name t, types.find? name = some t → known name t
  memory : ∀ i name t, w.held i name = some t → known name t

/-- What happens to types, in the directory and in memory. -/
structure Passes (known : Name → ChipType → Prop) (types : TypeTable) (m : Moment)
    (types' : TypeTable) : Prop where
  result : m.result = .ok ()
  sound : m.after.IsSound known types'
  /-- What is left of a type is left in the directory and in the session's memory. -/
  touched : ∀ i name, name ∈ m.touched → m.actor? = some i →
    types'.find? name = m.left ∧ m.after.held i name = m.left
  /-- All else stays in the directory. -/
  kept : ∀ name, name ∉ m.touched → types'.find? name = types.find? name
  /-- It also stays in memory, where it is the same there. -/
  memory : ∀ i name, name ∉ m.touched → types.find? name = m.before.held i name →
    m.after.held i name = m.before.held i name
  converged : HaveDistinctDigests known → m.IsConverged

variable {known : Name → ChipType → Prop} {types : TypeTable}

/-- A session is opened. -/
theorem IsSound.opened (h : w.IsSound known types) {settings : Settings}
    (hdisk : ¬ IsDiskError (Moment.result ⟨w, .opened settings⟩)) :
    Passes known types ⟨w, .opened settings⟩ types := by
  have hload : ¬ IsDiskError (Registry.load settings w.store) := by
    rintro ⟨path, e, herror⟩
    refine hdisk ⟨path, e, ?_⟩
    unfold Moment.result step
    dsimp only
    rw [herror]
  obtain ⟨r, hr, hcustom, hfollows⟩ :=
    h.supplies.load (Registry.not_isDiskError_of_load hload) settings
  have hstep : w.step (.opened settings) = (.ok (), { w with sessions := w.sessions ++ [r] }) := by
    unfold step
    dsimp only
    rw [hr]
  have hsession := w.session?_append r (congrArg DirectoryStore.disk hfollows.store)
  have hheld : ∀ j name, held { w with sessions := w.sessions ++ [r] } j name
      = if j = w.sessions.length then types.find? name else w.held j name := by
    intro j name
    unfold held
    rw [hsession]
    split
    · rw [Option.bind_some, hcustom]
    · rfl
  constructor
  case result => exact congrArg Prod.fst hstep
  case sound =>
    rw [show Moment.after ⟨w, .opened settings⟩ = _ from congrArg Prod.snd hstep]
    constructor
    case supplies => exact h.supplies
    case stored => exact h.stored
    case follows =>
      intro j d hd
      rw [hsession] at hd
      split at hd
      · exact Option.some.inj hd ▸ hfollows
      · exact h.follows j d hd
    case memory =>
      intro j name t ht
      rw [hheld] at ht
      split at ht
      · exact h.stored name t ht
      · exact h.memory j name t ht
  case touched => exact fun j name hname => absurd hname (List.not_mem_nil)
  case kept => exact fun _ _ => rfl
  case memory =>
    intro j name _ hsame
    rw [show Moment.after ⟨w, .opened settings⟩ = _ from congrArg Prod.snd hstep, hheld]
    split
    · exact hsame
    · rfl
  case converged => exact fun _ j d hevent => absurd hevent (by simp)

/-- A session that catches up has all types as they are in the directory, and leaves them there. -/
theorem IsSound.synced (h : w.IsSound known types) (hsession : w.session? i = some r)
    (hdisk : ¬ IsDiskError (r.apply .sync).1) (hdistinct : HaveDistinctDigests known) :
    (r.apply .sync).2.custom = types ∧ (w.leave i (r.apply .sync).2).store = w.store := by
  have hr := h.follows i r hsession
  obtain ⟨r', hsync, hr', hcases⟩ := hr.sync h.supplies hdisk
  rw [show r.apply .sync = (.ok (), r') from hsync]
  constructor
  · refine hr.custom_eq h.supplies (fun name t u ht hu => ?_) hcases
    exact hdistinct name t u (h.memory i name t ((held_eq hsession name).trans ht))
      (h.stored name u hu)
  · unfold store leave
    rw [hr'.store]
    rfl

/-- A session that has done something has in memory what it has seen, and what it holds is known. -/
theorem IsSound.leave (h : w.IsSound known types) (hsession : w.session? i = some r)
    {names : List Name} {left : Option ChipType} {types' : TypeTable} (hfollows : r'.Follows (w.leave i r').store)
    (hsupplies : Registry.Supplies (w.leave i r').store types')
    (heffect : Registry.Effect r types names left r' types')
    (hknown : ∀ name t, name ∈ names → left = some t → known name t) :
    (w.leave i r').IsSound known types' := by
  constructor
  case supplies => exact hsupplies
  case stored =>
    intro name t ht
    by_cases hname : name ∈ names
    · exact hknown name t hname ((heffect.touched name hname).2.symm.trans ht)
    · exact h.stored name t ((heffect.stored name hname).symm.trans ht)
  case follows =>
    intro j d hd
    rw [session?_leave hsession] at hd
    split at hd
    · exact Option.some.inj hd ▸ hfollows
    · obtain ⟨e, he, rfl⟩ := Option.map_eq_some_iff.1 hd
      exact (h.follows j e he).withDisk r'.store.disk
  case memory =>
    intro j name t ht
    rw [held_leave hsession] at ht
    split at ht
    · by_cases hname : name ∈ names
      · exact hknown name t hname ((heffect.touched name hname).1.symm.trans ht)
      · rcases heffect.memory name hname with hkept | htaken
        · exact h.memory i name t ((held_eq hsession name).trans (hkept ▸ ht))
        · exact h.stored name t (htaken ▸ ht)
    · exact h.memory j name t ht

/-- A session carries out an operation. -/
theorem IsSound.did (h : w.IsSound known types) {op : Registry.Operation}
    (hsession : w.session? i = some r) (hm : Moment.IsAdmissible ⟨w, .did i op⟩)
    (hknown : ∀ name t, HasDefined [⟨w, .did i op⟩] name t → known name t) :
    ∃ types', Passes known types ⟨w, .did i op⟩ types' := by
  have hresult : Moment.result ⟨w, .did i op⟩ = (r.apply op).1 :=
    congrArg Prod.fst (step_did hsession op)
  have hafter : Moment.after ⟨w, .did i op⟩ = w.leave i (r.apply op).2 :=
    congrArg Prod.snd (step_did hsession op)
  have htouched := touched_did hsession op
  have hleft := left_did hsession op
  have hdisk := hm.disk
  rw [hresult] at hdisk
  have hrecord := hm.names
  rw [htouched] at hrecord
  obtain ⟨r', disk, types', happly, hr', hs', heffect⟩ :=
    (h.follows i r hsession).apply h.supplies (hm.operation i op r rfl hsession) hrecord hdisk
  obtain rfl : r'.store.disk = disk := congrArg DirectoryStore.disk hr'.store
  rw [happly] at hresult hafter
  have hdefined : ∀ name t, name ∈ op.touched r → op.left r = some t → known name t :=
    fun name t hname ht =>
      hknown name t ⟨_, List.mem_singleton_self _, htouched ▸ hname, hleft.trans ht⟩
  refine ⟨types', ?_⟩
  constructor
  case result => exact hresult
  case sound => exact hafter ▸ h.leave hsession hr' hs' heffect hdefined
  case touched =>
    intro j name hname hactor
    obtain rfl : i = j := Option.some.inj hactor
    rw [htouched] at hname
    rw [hafter, held_leave hsession, if_pos rfl, hleft]
    exact (heffect.touched name hname).symm
  case kept =>
    intro name hname
    rw [htouched] at hname
    exact heffect.stored name hname
  case memory =>
    intro j name hname hsame
    rw [htouched] at hname
    rw [hafter, held_leave hsession]
    split
    · rename_i heq
      subst heq
      rcases heffect.memory name hname with hkept | htaken
      · exact hkept.trans (held_eq hsession name).symm
      · exact htaken.trans hsame
    · rfl
  case converged =>
    intro hdistinct j d hevent hd
    obtain ⟨rfl, rfl⟩ := Event.did.inj hevent
    rw [hafter, session?_leave hsession, if_pos rfl] at hd
    obtain rfl := Option.some.inj hd
    obtain ⟨hcustom, hstore⟩ := h.synced hsession hdisk hdistinct
    rw [happly] at hcustom hstore
    rw [hafter, hstore, hcustom]
    refine ⟨h.supplies.stores.onDisk, fun settings => ?_⟩
    obtain ⟨fresh, hload, hfresh, -⟩ :=
      h.supplies.load ((h.follows i r hsession).not_isDiskError_scan hdisk) settings
    exact ⟨fresh, hload, hfresh⟩

/-- An event keeps everything sound. -/
theorem IsSound.passes (h : w.IsSound known types) {event : Event}
    (hm : Moment.IsAdmissible ⟨w, event⟩)
    (hknown : ∀ name t, HasDefined [⟨w, event⟩] name t → known name t) :
    ∃ types', Passes known types ⟨w, event⟩ types' := by
  cases event with
  | opened settings => exact ⟨types, h.opened hm.disk⟩
  | did i op =>
    cases hsession : w.session? i with
    | some r => exact h.did hsession hm hknown
    | none =>
      -- There is no such session, so nothing happens.
      have hstep : w.step (.did i op) = (.ok (), w) := by
        unfold step
        dsimp only
        rw [hsession]
      have hafter : Moment.after ⟨w, .did i op⟩ = w := congrArg Prod.snd hstep
      have htouched : Moment.touched ⟨w, .did i op⟩ = [] := by
        unfold Moment.touched
        dsimp only
        rw [hsession]
        rfl
      refine ⟨types, ?_⟩
      constructor
      case result => exact congrArg Prod.fst hstep
      case sound => exact hafter.symm ▸ h
      case touched =>
        intro j name hname
        rw [htouched] at hname
        exact absurd hname List.not_mem_nil
      case kept => exact fun _ _ => rfl
      case memory =>
        intro j name _ _
        rw [hafter]
      case converged =>
        intro _ j d hevent hd
        obtain ⟨rfl, rfl⟩ := Event.did.inj hevent
        rw [hafter, hsession] at hd
        exact absurd hd (by simp)

/-! ## §4. Runs. -/

/-- Whatever happens, everything stays sound, and a type in the hands of one session is the same in
the directory and in the session's memory. -/
theorem IsSound.run (h : w.IsSound known types) {events : List Event}
    (hadmits : ∀ m ∈ w.trace events, m.IsAdmissible)
    (hknown : ∀ name t, HasDefined (w.trace events) name t → known name t)
    (hdistinct : HaveDistinctDigests known) :
    (∀ m ∈ w.trace events, m.result = .ok () ∧ m.IsConverged) ∧
      ∃ types', (w.run events).IsSound known types' ∧
        ∀ i name last, (∀ m ∈ w.trace events, name ∈ m.touched → m.actor? = some i) →
          types.find? name = last → w.held i name = last →
          types'.find? name = lastLeft name (w.trace events) last ∧
            (w.run events).held i name = lastLeft name (w.trace events) last := by
  induction events generalizing w types with
  | nil => exact ⟨by simp [trace], types, h, fun i name last _ hstored hheld => ⟨hstored, hheld⟩⟩
  | cons event rest ih =>
    obtain ⟨hm, hadmits⟩ := List.forall_mem_cons.1 hadmits
    obtain ⟨types₁, hpasses⟩ := h.passes hm fun name t ht =>
      hknown name t (ht.mono (List.cons_subset.2 ⟨List.mem_cons_self, List.nil_subset _⟩))
    obtain ⟨hmoments, types₂, hsound, howned⟩ := ih hpasses.sound hadmits fun name t ht =>
      hknown name t (ht.mono (List.subset_cons_self _ _))
    refine ⟨List.forall_mem_cons.2 ⟨⟨hpasses.result, hpasses.converged hdistinct⟩, hmoments⟩,
      types₂, hsound, fun i name last howner hstored hheld => ?_⟩
    obtain ⟨howner₀, howner⟩ := List.forall_mem_cons.1 howner
    have hnext : types₁.find? name = (if name ∈ Moment.touched ⟨w, event⟩
          then Moment.left ⟨w, event⟩ else last) ∧
        (Moment.after ⟨w, event⟩).held i name = (if name ∈ Moment.touched ⟨w, event⟩
          then Moment.left ⟨w, event⟩ else last) := by
      split
      · rename_i hname
        exact hpasses.touched i name hname (howner₀ hname)
      · rename_i hname
        exact ⟨(hpasses.kept name hname).trans hstored,
          (hpasses.memory i name hname (hstored.trans hheld.symm)).trans hheld⟩
    exact howned i name _ howner hnext.1 hnext.2

/-- A directory that nobody has opened yet. -/
def unopened (disk : Disk) (dir stem : String) : SharedDirectory := ⟨disk, dir, stem, []⟩

theorem isSound_unopened {disk : Disk} {dir stem : String} (hdir : dir ≠ "")
    (hbare : DirectoryStore.HasNoRecords (.ofDir (disk.makeFolders dir).2 dir stem))
    (known : Name → ChipType → Prop) : (unopened disk dir stem).IsSound known .empty := by
  have hnone : ∀ name t, (Table.empty : TypeTable).find? name ≠ some t := by simp [Table.find?_empty]
  constructor
  case supplies =>
    exact ⟨DirectoryStore.stores_empty hdir hbare, fun name t ht => absurd ht (hnone name t)⟩
  case follows => exact fun i r hr => absurd hr (by simp [unopened, session?])
  case stored => exact fun name t ht => absurd ht (hnone name t)
  case memory => exact fun i name t ht => absurd ht (by simp [unopened, held, session?])

/-- Sessions on a directory, which the empty path does not lead to and in which there were no records
before.  No operation fails; when a session has caught up, it has exactly the types that are stored,
as has a session that is opened then; and a type that is touched by one session only is stored as
this session has last left it, and is the same in its memory.  Since this is so after every run, it
is so all along. -/
theorem sessions_converge {disk : Disk} {dir stem : String} (hdir : dir ≠ "")
    (hbare : DirectoryStore.HasNoRecords (.ofDir (disk.makeFolders dir).2 dir stem))
    {events : List Event}
    (hadmits : ∀ m ∈ (unopened disk dir stem).trace events, m.IsAdmissible)
    (hdistinct : HaveDistinctDigests (HasDefined ((unopened disk dir stem).trace events))) :
    (∀ m ∈ (unopened disk dir stem).trace events, m.result = .ok () ∧ m.IsConverged) ∧
      ∀ i name, (unopened disk dir stem).store.IsRecordName name →
        (∀ m ∈ (unopened disk dir stem).trace events, name ∈ m.touched → m.actor? = some i) →
        let last := lastLeft name ((unopened disk dir stem).trace events) none
        ((unopened disk dir stem).run events).store.onDisk name = last.map ChipType.recordText ∧
          ((unopened disk dir stem).run events).held i name = last := by
  obtain ⟨hmoments, types, hsound, howned⟩ :=
    (isSound_unopened hdir hbare _).run hadmits (fun _ _ => id) hdistinct
  refine ⟨hmoments, fun i name hname howner => ?_⟩
  obtain ⟨hstored, hheld⟩ := howned i name none howner rfl rfl
  refine ⟨?_, hheld⟩
  rw [← hstored]
  exact hsound.supplies.stores.onDisk name (isRecordName_run hname events)

/-! ## §5. A type that another session finds. -/

theorem event_mem_of_trace {w : SharedDirectory} {events : List Event} {m : Moment}
    (h : m ∈ w.trace events) : m.event ∈ events := by
  induction events generalizing w with
  | nil => exact absurd h List.not_mem_nil
  | cons event rest ih =>
    rcases List.mem_cons.1 h with rfl | hrest
    · exact List.mem_cons_self
    · exact List.mem_cons_of_mem _ (ih hrest)

/-- Of two sessions, one makes a type and the other one catches up. -/
def twoSessions : List Event :=
  [.opened {}, .opened {}, .did 0 (.newType ⟨"cell"⟩), .did 1 .sync]

/-- A disk with a home directory, where nobody has opened a session yet. -/
def bench : SharedDirectory := unopened (.ofHome ["home"]) "types" "T_"

theorem twoSessions_converge : (∀ m ∈ bench.trace twoSessions, m.IsAdmissible) ∧
    HaveDistinctDigests (HasDefined (bench.trace twoSessions)) ∧
    (∀ m ∈ bench.trace twoSessions, m.result = .ok () ∧ m.IsConverged) ∧
    (bench.run twoSessions).store.onDisk ⟨"cell"⟩ = some ChipType.skeleton.recordText := by
  have hbare : DirectoryStore.HasNoRecords
      (.ofDir ((Disk.ofHome ["home"]).makeFolders "types").2 "types" "T_") :=
    DirectoryStore.hasNoRecords_of_isAt (p := ["home", "types"]) ⟨rfl, rfl⟩ fun _ _ _ => rfl
  have hmade : ∀ m ∈ bench.trace twoSessions, ∀ name ∈ m.touched,
      m.actor? = some 0 ∧ m.left = some .skeleton := by
    decide +kernel
  have hadmits : ∀ m ∈ bench.trace twoSessions, m.IsAdmissible := by
    intro m hm
    constructor
    case operation =>
      intro i op r hevent _
      have hmem := hevent ▸ event_mem_of_trace hm
      simp only [twoSessions, List.mem_cons, Event.did.injEq, reduceCtorEq, List.not_mem_nil,
        or_false, false_or] at hmem
      obtain ⟨-, rfl⟩ | ⟨-, rfl⟩ := hmem <;> trivial
    case names =>
      have hnames : ∀ m ∈ bench.trace twoSessions, ∀ name ∈ m.touched,
          m.before.store.IsRecordName name := by decide +kernel
      exact hnames m hm
    case disk =>
      have hdisk : ∀ m ∈ bench.trace twoSessions, ¬ DirectoryStore.IsDiskError m.result := by
        decide +kernel
      exact hdisk m hm
  have hdistinct : HaveDistinctDigests (HasDefined (bench.trace twoSessions)) := by
    have hskeleton : ∀ name t, HasDefined (bench.trace twoSessions) name t → t = .skeleton := by
      rintro name t ⟨m, hm, hname, ht⟩
      exact Option.some.inj (ht.symm.trans (hmade m hm name hname).2)
    intro name t u ht hu _
    rw [hskeleton name t ht, hskeleton name u hu]
  obtain ⟨hmoments, howned⟩ := sessions_converge (by decide) hbare hadmits hdistinct
  have hlast : lastLeft ⟨"cell"⟩ (bench.trace twoSessions) none = some .skeleton := by
    decide +kernel
  obtain ⟨hdisk, -⟩ := howned 0 ⟨"cell"⟩ (by decide +kernel) fun m hm hname => (hmade m hm _ hname).1
  refine ⟨hadmits, hdistinct, hmoments, hdisk.trans ?_⟩
  exact congrArg (Option.map ChipType.recordText) hlast

end SharedDirectory

end LogicBoard
