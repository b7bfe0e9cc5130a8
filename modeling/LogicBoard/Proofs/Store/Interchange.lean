/-
  LogicBoard.Proofs.Store.Interchange
  ────────────────────────────────
  **STORES ARE INTERCHANGEABLE.**

  A directory that nobody else writes to cannot be told from a store in
  memory by asking.  Both hold the same texts at all times, and the
  directory's store remembers the digest of every one of them.

  Main statements:
    • `Agree.ask` — stores that agree reply the same, and agree afterwards,
    • `replies_eq` — so they reply the same to all requests,
    • `directory_interchangeable` — in particular, a directory without
      records is as good as an empty store in memory.
-/
import LogicBoard.Proofs.Store.Requests
import LogicBoard.Store.Memory

namespace LogicBoard

universe u

namespace TypeStore

/-! ## §1. Asking a store. -/

/-- What a store can be asked. -/
inductive Request where
  | loadAll
  | load (name : Name)
  | save (name : Name) (t : ChipType)
  | remove (name : Name)
  | changes

/-- What a store can reply. -/
inductive Reply where
  | types (result : Except StoreError (List (Name × ChipType)))
  | type (result : Except StoreError (Option ChipType))
  | done (result : Except StoreError Unit)
  | names (result : Except StoreError (List Name))
deriving DecidableEq

variable {σ : Type u} [TypeStore σ]

/-- Puts a request to a store. -/
def ask (s : σ) : Request → Reply × σ
  | .loadAll => (loadAll s).map .types id
  | .load name => (load s name).map .type id
  | .save name t => (save s name t).map .done id
  | .remove name => (remove s name).map .done id
  | .changes => (changes s).map .names id

/-- The replies to requests that are made one after the other. -/
def replies (s : σ) : List Request → List Reply
  | [] => []
  | request :: rest => (ask s request).1 :: replies (ask s request).2 rest

/-- The request fails because of the disk. -/
def Reply.IsDiskError : Reply → Prop
  | .types result => DirectoryStore.IsDiskError result
  | .type result => DirectoryStore.IsDiskError result
  | .done result => DirectoryStore.IsDiskError result
  | .names result => DirectoryStore.IsDiskError result

instance : (reply : Reply) → Decidable reply.IsDiskError
  | .types result => inferInstanceAs (Decidable (DirectoryStore.IsDiskError result))
  | .type result => inferInstanceAs (Decidable (DirectoryStore.IsDiskError result))
  | .done result => inferInstanceAs (Decidable (DirectoryStore.IsDiskError result))
  | .names result => inferInstanceAs (Decidable (DirectoryStore.IsDiskError result))

/-- The file of the type that is meant is told to be the type's, and a definition that is saved is
made of values that a design can have.  The constants may be doubles, which are not always read as
they were saved. -/
def Request.IsProper (s : DirectoryStore) : Request → Prop
  | .loadAll | .changes => True
  | .load name | .remove name => s.IsRecordName name
  | .save name t => s.IsRecordName name ∧ t.IsStorable

end TypeStore

open TypeStore

/-! ## §2. The store in memory. -/

namespace MemoryStore

variable {m : MemoryStore} {tell : String → ChipType}

theorem load_of_tells (h : DirectoryStore.Tells m.records tell) (name : Name) :
    m.load name = .ok ((m.records.find? name).map tell) := by
  unfold MemoryStore.load
  cases htext : m.records.find? name with
  | none => rfl
  | some text =>
    dsimp only
    rw [h name text htext]
    rfl

theorem loadAll_of_tells (h : DirectoryStore.Tells m.records tell) :
    m.loadAll = .ok (m.records.entries.map fun e => (e.1, tell e.2)) := by
  refine Fallible.mapM_eq_map fun e he => ?_
  rw [h e.1 e.2 (Table.find?_eq_some_iff.2 he)]
  rfl

/-- Nobody else changes anything. -/
theorem names_mem_replies {requests : List Request} {m : MemoryStore}
    {result : Except StoreError (List Name)} (h : .names result ∈ replies m requests) :
    result = .ok [] := by
  induction requests generalizing m with
  | nil => exact absurd h List.not_mem_nil
  | cons request rest ih =>
    rcases List.mem_cons.1 h with hfirst | hrest
    · cases request with
      | changes => exact Reply.names.inj hfirst
      | _ => exact Reply.noConfusion hfirst
    · exact ih hrest

end MemoryStore

namespace DirectoryStore

/-! ## §3. Stores that agree. -/

/-- The directory holds what is in memory.  All of it tells definitions, and all of it is
remembered as it is. -/
structure Agree (s : DirectoryStore) (m : MemoryStore) : Prop where
  holds : s.Holds m.records
  seen : s.seen = m.records.mapValues Digest.ofText
  tells : Tells m.records told

variable {s : DirectoryStore} {m : MemoryStore} {name : Name}

theorem tells_insert {records : Table Name String} (h : Tells records told) {t : ChipType}
    (ht : t.IsStorable) : Tells (records.insert name t.recordText) told := by
  intro other text htext path
  rw [Table.find?_insert] at htext
  split at htext
  · obtain rfl := Option.some.inj htext
    rw [told_recordText ht, ChipType.ofRecordText_reread ht]
  · exact h other text htext path

theorem tells_erase {records : Table Name String} (h : Tells records told) :
    Tells (records.erase name) told := by
  intro other text htext path
  rw [Table.find?_erase] at htext
  split at htext
  · exact absurd htext (by simp)
  · exact h other text htext path

/-- A directory without records agrees with an empty store. -/
theorem agree_empty {disk : Disk} {dir stem : String} (hdir : dir ≠ "")
    (hbare : HasNoRecords (.ofDir (disk.makeFolders dir).2 dir stem)) :
    Agree (.ofDir disk dir stem) .empty where
  holds := holds_empty hdir hbare
  seen := rfl
  tells := fun name text htext => absurd htext (by simp [MemoryStore.empty, Table.find?_empty])

/-! ## §4. One request. -/

/-- Both stores reply the same to the request, and they still agree. -/
structure Meets (s : DirectoryStore) (m : MemoryStore) (request : Request) : Prop where
  reply : (ask s request).1 = (ask m request).1
  after : ∃ disk seen, (ask s request).2 = { s with disk, seen } ∧
    Agree { s with disk, seen } (ask m request).2

theorem Agree.load (h : s.Agree m) (hname : s.IsRecordName name)
    (hdisk : ¬ IsDiskError (s.load name).1) : s.Meets m (.load name) := by
  have hload := h.holds.load h.tells hname hdisk
  -- The digest is remembered already, so remembering it once more changes nothing.
  have hmarked : s.marked name (m.records.find? name) = s := by
    unfold marked
    rw [Table.setTo_eq_self (by rw [h.seen, Table.find?_mapValues])]
  rw [hmarked] at hload
  constructor
  · show Reply.type (s.load name).1 = Reply.type (m.load name)
    rw [hload, MemoryStore.load_of_tells h.tells]
  · refine ⟨s.disk, s.seen, ?_, h⟩
    show (s.load name).2 = s
    rw [hload]

theorem Agree.save (h : s.Agree m) (hname : s.IsRecordName name) {t : ChipType}
    (ht : t.IsStorable) (hdisk : ¬ IsDiskError (s.save name t).1) : s.Meets m (.save name t) := by
  obtain ⟨disk, hsave, hholds⟩ := h.holds.save hname t hdisk
  constructor
  · show Reply.done (s.save name t).1 = Reply.done (.ok ())
    rw [hsave]
  · -- What is written is remembered at once, whatever was kept under the name before.
    refine ⟨disk, s.seen.insert name (Digest.ofText t.recordText), congrArg Prod.snd hsave, ?_⟩
    refine ⟨hholds.see _, ?_, tells_insert h.tells ht⟩
    show _ = (m.records.insert name t.recordText).mapValues Digest.ofText
    rw [Table.mapValues_insert, ← h.seen]

theorem Agree.remove (h : s.Agree m) (hname : s.IsRecordName name)
    (hdisk : ¬ IsDiskError (s.remove name).1) : s.Meets m (.remove name) := by
  obtain ⟨disk, hremove, hholds⟩ := h.holds.remove hname hdisk
  constructor
  · show Reply.done (s.remove name).1 = Reply.done (.ok ())
    rw [hremove]
  · -- The name is forgotten whether or not there was a record.
    refine ⟨disk, s.seen.erase name, congrArg Prod.snd hremove, ?_⟩
    refine ⟨hholds.see _, ?_, tells_erase h.tells⟩
    show _ = (m.records.erase name).mapValues Digest.ofText
    rw [Table.mapValues_erase, ← h.seen]

theorem Agree.loadAll (h : s.Agree m) (hdisk : ¬ IsDiskError s.loadAll.1) :
    s.Meets m .loadAll := by
  have hload := h.holds.loadAll h.tells fun hscan => hdisk (isDiskError_loadAll hscan)
  -- The digests are collected anew, and they are those that were remembered.
  rw [← h.seen] at hload
  constructor
  · show Reply.types s.loadAll.1 = Reply.types m.loadAll
    rw [hload, MemoryStore.loadAll_of_tells h.tells]
  · refine ⟨s.disk, s.seen, ?_, h⟩
    show s.loadAll.2 = s
    rw [hload]

/-- Everything that is held is remembered, so nothing has changed. -/
theorem Agree.changes (h : s.Agree m) (hdisk : ¬ IsDiskError s.changes) :
    s.Meets m .changes := by
  obtain ⟨names, hchanges, hmem⟩ := h.holds.changes fun hscan => hdisk (isDiskError_changes hscan)
  have hnone : names = [] := by
    refine List.eq_nil_iff_forall_not_mem.2 fun name hname => ?_
    exact (hmem name).1 hname (congrArg (Table.find? · name) h.seen)
  constructor
  · show Reply.names s.changes = Reply.names (.ok [])
    rw [hchanges, hnone]
  · exact ⟨s.disk, s.seen, rfl, h⟩

/-- **Stores that agree reply the same, and agree afterwards.** -/
theorem Agree.ask (h : s.Agree m) {request : Request} (hproper : request.IsProper s)
    (hdisk : ¬ (TypeStore.ask s request).1.IsDiskError) : s.Meets m request := by
  cases request with
  | loadAll => exact h.loadAll hdisk
  | load name => exact h.load hproper hdisk
  | save name t => exact h.save hproper.1 hproper.2 hdisk
  | remove name => exact h.remove hproper hdisk
  | changes => exact h.changes hdisk

/-! ## §5. Many requests. -/

/-- Where the directory is and what its files are called settles which requests are proper. -/
theorem isProper_with {request : Request} (disk : Disk) (seen : Table Name Digest) :
    request.IsProper { s with disk, seen } ↔ request.IsProper s := by
  cases request <;> exact Iff.rfl

/-- Stores that agree reply the same to all requests. -/
theorem Agree.replies_eq (h : s.Agree m) {requests : List Request}
    (hproper : ∀ request ∈ requests, request.IsProper s)
    (hdisk : ∀ reply ∈ replies s requests, ¬ reply.IsDiskError) :
    replies s requests = replies m requests := by
  -- Both stores go on from where the first request leaves them, and there they agree again.
  induction requests generalizing s m with
  | nil => rfl
  | cons request rest ih =>
    obtain ⟨hfirst, hrest⟩ := List.forall_mem_cons.1 hproper
    obtain ⟨hreply, hlater⟩ := List.forall_mem_cons.1 hdisk
    obtain ⟨hsame, disk, seen, hafter, hagree⟩ := h.ask hfirst hreply
    unfold replies
    rw [hsame]
    rw [hafter] at hlater ⊢
    rw [ih hagree (fun r hr => (isProper_with disk seen).2 (hrest r hr)) hlater]

/-- A directory without records, which the empty path does not lead to, replies to all requests just
as an empty store in memory does, unless the disk fails.  So it never reports a change. -/
theorem directory_interchangeable {disk : Disk} {dir stem : String} (hdir : dir ≠ "")
    (hbare : HasNoRecords (.ofDir (disk.makeFolders dir).2 dir stem)) {requests : List Request}
    (hproper : ∀ request ∈ requests, request.IsProper (.ofDir disk dir stem))
    (hdisk : ∀ reply ∈ replies (ofDir disk dir stem) requests, ¬ reply.IsDiskError) :
    replies (ofDir disk dir stem) requests = replies MemoryStore.empty requests ∧
      ∀ result, .names result ∈ replies (ofDir disk dir stem) requests → result = .ok [] := by
  have hsame := (agree_empty hdir hbare).replies_eq hproper hdisk
  refine ⟨hsame, fun result hresult => ?_⟩
  rw [hsame] at hresult
  exact MemoryStore.names_mem_replies hresult

/-! ## §6. A type that is saved twice. -/

/-- A definition whose content has a size of its own, and in it a chip with a double. -/
def pairDraft : ChipType :=
  { ChipType.skeleton with
    size := ⟨2, 1⟩
    content := .ofChips .one
      [⟨⟨"gate"⟩, "", ⟨"and"⟩, .one, .ofList [("K", .number (.double ⟨0x3FB999999999999A⟩))], .r3⟩]
      [] }

theorem isStorable_pairDraft : pairDraft.IsStorable := by
  have hgate : Name.IsFolded ⟨"gate"⟩ := ⟨"gate", by decide +kernel⟩
  have hand : Name.IsFolded ⟨"and"⟩ := ⟨"and", by decide +kernel⟩
  constructor
  case size => exact ⟨by decide, by decide⟩
  case content =>
    refine ⟨List.forall_mem_singleton.2 ⟨hgate, hand, ⟨by decide, by decide⟩⟩, ?_⟩
    exact fun w hw => absurd hw List.not_mem_nil
  case constants =>
    refine List.forall_mem_singleton.2 (List.forall_mem_singleton.2 ?_)
    show Binary64.IsFinite _
    decide +kernel

/-- A definition without anything in it. -/
def pairBlank : ChipType := ⟨.one, [], [], [], .ofSize .one, none, "", ""⟩

theorem isStorable_pairBlank : pairBlank.IsStorable := by
  have hbare : ∀ chip ∈ pairBlank.content.chips.values, False := fun chip h => List.not_mem_nil h
  constructor
  case size => exact ⟨by decide, by decide⟩
  case content => exact ⟨fun chip h => (hbare chip h).elim, fun w h => absurd h List.not_mem_nil⟩
  case constants => exact fun chip h => (hbare chip h).elim

/-- The type is saved, saved again and removed, and so is one that was never there. -/
def errands : List Request :=
  [.changes, .save ⟨"pair"⟩ pairDraft, .changes, .save ⟨"pair"⟩ pairBlank, .remove ⟨"ghost"⟩,
   .load ⟨"pair"⟩, .changes, .remove ⟨"pair"⟩, .loadAll]

/-- A directory that is not there yet. -/
def drawer : DirectoryStore := .ofDir (.ofHome ["home"]) "types" "T_"

theorem errands_interchangeable :
    HasNoRecords (.ofDir ((Disk.ofHome ["home"]).makeFolders "types").2 "types" "T_") ∧
    (∀ request ∈ errands, request.IsProper drawer) ∧
    (∀ reply ∈ replies drawer errands, ¬ reply.IsDiskError) ∧
    replies drawer errands = replies MemoryStore.empty errands ∧
    (∀ result, .names result ∈ replies drawer errands → result = .ok []) ∧
    replies MemoryStore.empty errands =
      [.names (.ok []), .done (.ok ()), .names (.ok []), .done (.ok ()), .done (.ok ()),
       .type (.ok (some pairBlank)), .names (.ok []), .done (.ok ()), .types (.ok [])] := by
  have hbare : HasNoRecords (.ofDir ((Disk.ofHome ["home"]).makeFolders "types").2 "types" "T_") :=
    hasNoRecords_of_isAt (p := ["home", "types"]) ⟨rfl, rfl⟩ fun _ _ _ => rfl
  have hpair : drawer.IsRecordName ⟨"pair"⟩ := by decide +kernel
  have hghost : drawer.IsRecordName ⟨"ghost"⟩ := by decide +kernel
  have hproper : ∀ request ∈ errands, request.IsProper drawer := by
    simp only [errands, List.forall_mem_cons]
    exact ⟨trivial, ⟨hpair, isStorable_pairDraft⟩, trivial, ⟨hpair, isStorable_pairBlank⟩, hghost,
      hpair, trivial, hpair, trivial, fun request h => absurd h List.not_mem_nil⟩
  have hdisk : ∀ reply ∈ replies drawer errands, ¬ reply.IsDiskError := by decide +kernel
  obtain ⟨hsame, hnames⟩ := directory_interchangeable (by decide) hbare hproper hdisk
  exact ⟨hbare, hproper, hdisk, hsame, hnames, by decide +kernel⟩

end DirectoryStore

end LogicBoard
