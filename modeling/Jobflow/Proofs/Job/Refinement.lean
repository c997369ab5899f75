import Jobflow.Proofs.Job.Recording
import Jobflow.Proofs.Job.Selection
import Jobflow.Proofs.Job.Stored

/-!
The store in a file does what the store in memory does. Operation by operation the file holds
the offers that are in memory, each identifier once; the memory may find its offers in any
order, the file keeps them in the order of their insertion.
-/

namespace Jobflow.Job

open Jobflow.Files
open Jobflow.Time (Instant)

/-! ### Offers with distinct identifiers -/

theorem find?_eq_some_iff {jobs : List Job} (hids : (jobs.map Job.id).Nodup) {id : Uuid}
    {job : Job} :
    find? jobs id = some job ↔ job ∈ jobs ∧ job.id = id := by
  constructor
  · intro h
    exact ⟨List.mem_of_find?_eq_some h, by simpa using List.find?_some h⟩
  · rintro ⟨hmem, rfl⟩
    have hfound : (find? jobs job.id).isSome := by
      rw [find?, List.find?_isSome]
      exact ⟨job, hmem, by simp⟩
    obtain ⟨other, hother⟩ := Option.isSome_iff_exists.mp hfound
    have hid : other.id = job.id := by simpa using List.find?_some hother
    rw [hother, List.inj_on_of_nodup_map hids (List.mem_of_find?_eq_some hother) hmem hid]

theorem find?_isSome_iff {jobs : List Job} {id : Uuid} :
    (find? jobs id).isSome ↔ id ∈ jobs.map Job.id := by
  rw [find?, List.find?_isSome]
  simp

theorem find?_perm {found jobs : List Job} (hperm : found.Perm jobs)
    (hids : (jobs.map Job.id).Nodup) (id : Uuid) : find? found id = find? jobs id := by
  have hfound : (found.map Job.id).Nodup := (hperm.map Job.id).nodup_iff.mpr hids
  apply Option.ext
  intro job
  rw [find?_eq_some_iff hfound, find?_eq_some_iff hids, hperm.mem_iff]

theorem updateFirst_perm {found jobs : List Job} (hperm : found.Perm jobs)
    (hids : (jobs.map Job.id).Nodup) (id : Uuid) (change : Job → Job) :
    (updateFirst id change found).Perm (updateFirst id change jobs) := by
  have hfound : (found.map Job.id).Nodup := (hperm.map Job.id).nodup_iff.mpr hids
  rw [updateFirst_eq_map hfound, updateFirst_eq_map hids]
  exact hperm.map _

theorem id_eq_of_notAfter {a b : Job} (hab : a.notAfter b) (hba : b.notAfter a) : a.id = b.id := by
  by_contra hne
  have hfirst := precedes_of_notAfter hab hne
  have hsecond := precedes_of_notAfter hba fun heq => hne heq.symm
  rcases hfirst with hfirst | ⟨hat, hfirst⟩
  · rcases hsecond with hsecond | ⟨hat, -⟩
    · rw [before_iff] at hfirst hsecond
      omega
    · rw [hat, before_iff] at hfirst
      omega
  · rcases hsecond with hsecond | ⟨-, hsecond⟩
    · rw [hat, before_iff] at hsecond
      omega
    · omega

theorem selectPending_perm {found jobs : List Job} (hperm : found.Perm jobs)
    (hids : (jobs.map Job.id).Nodup) (limit : Nat) :
    selectPending found limit = selectPending jobs limit := by
  have hsame : (found.filter Job.isPending).mergeSort Job.notAfter =
      (jobs.filter Job.isPending).mergeSort Job.notAfter := by
    refine List.Perm.eq_of_pairwise ?_
      (List.pairwise_mergeSort notAfter_trans notAfter_total _)
      (List.pairwise_mergeSort notAfter_trans notAfter_total _)
      ((List.mergeSort_perm _ _).trans ((hperm.filter _).trans (List.mergeSort_perm _ _).symm))
    intro a b ha hb hab hba
    have hin {job : Job} {list : List Job}
        (h : job ∈ (list.filter Job.isPending).mergeSort Job.notAfter) :
        job ∈ list := List.mem_of_mem_filter (List.mem_mergeSort.mp h)
    exact List.inj_on_of_nodup_map hids (hperm.mem_iff.mp (hin ha)) (hin hb)
      (id_eq_of_notAfter hab hba)
  rw [selectPending, selectPending, hsame]

/-! ### Operations on offers in any order -/

namespace Operation

/-- The identifier that a successful insertion adds. -/
def added (op : Operation) (answer : Answer) : List Uuid :=
  match op, answer with
  | .insert job, .ok _ => [job.id]
  | _, _ => []

variable {found jobs : List Job}

theorem map_id_after (op : Operation) (jobs : List Job) :
    (op.after jobs).map Job.id = jobs.map Job.id ++ op.added (op.answer jobs) := by
  cases op with
  | insert job =>
    rw [after_insert, answer_insert]
    split <;> simp [added]
  | commit job =>
    rw [after_commit, map_id_updateFirst fun _ _ => rfl]
    simp [added]
  | record id attempt =>
    rw [after_record, map_id_updateFirst (keeps_id_recordAttempt attempt)]
    simp [added]
  | get id => simp [added]
  | pending limit => simp [added]
  | list => simp [added]

/-- The identifiers stay distinct. -/
theorem nodup_after (hids : (jobs.map Job.id).Nodup) (op : Operation) :
    ((op.after jobs).map Job.id).Nodup := by
  rw [map_id_after]
  cases op with
  | insert job =>
    rw [answer_insert]
    split
    · simpa [added] using hids
    · next hfree =>
      rw [find?_isSome_iff] at hfree
      simp only [added]
      rw [List.nodup_append]
      refine ⟨hids, List.nodup_singleton _, ?_⟩
      rintro a ha b hb rfl
      rw [List.mem_singleton.mp hb] at ha
      exact hfree ha
  | commit job => simpa [added] using hids
  | record id attempt => simpa [added] using hids
  | get id => simpa [added] using hids
  | pending limit => simpa [added] using hids
  | list => simpa [added] using hids

theorem after_perm (hperm : found.Perm jobs) (hids : (jobs.map Job.id).Nodup) (op : Operation) :
    (op.after found).Perm (op.after jobs) := by
  cases op with
  | insert job =>
    rw [after_insert, after_insert, find?_perm hperm hids]
    split
    · exact hperm
    · exact hperm.append_right [job]
  | commit job =>
    rw [after_commit, after_commit]
    exact updateFirst_perm hperm hids _ _
  | record id attempt =>
    rw [after_record, after_record]
    exact updateFirst_perm hperm hids _ _
  | get id => exact hperm
  | pending limit => exact hperm
  | list => exact hperm

/-- Only the order in which offers are listed can depend on the order they are found in. -/
theorem answer_perm (hperm : found.Perm jobs) (hids : (jobs.map Job.id).Nodup) {op : Operation}
    (hop : op ≠ .list) : op.answer found = op.answer jobs := by
  cases op with
  | insert job => rw [answer_insert, answer_insert, find?_perm hperm hids]
  | commit job => rw [answer_commit, answer_commit, find?_perm hperm hids]
  | record id attempt => rw [answer_record, answer_record, find?_perm hperm hids]
  | get id =>
    simp only [answer, apply, find?_perm hperm hids]
    rfl
  | pending limit =>
    simp only [answer, apply, selectPending_perm hperm hids]
    rfl
  | list => contradiction

end Operation

/-! ### Lists of offers that are shown -/

/-- All the offers, from the oldest to the newest. -/
structure Lists (jobs shown : List Job) : Prop where
  perm : shown.Perm jobs
  ordered : shown.Pairwise fun a b => a.createdAt.notAfter b.createdAt

theorem notAfter_instant_iff {a b : Instant} :
    a.notAfter b ↔ a.seconds < b.seconds ∨ (a.seconds = b.seconds ∧ a.nanos ≤ b.nanos) := by
  rw [Instant.notAfter, Bool.not_eq_true', ← Bool.not_eq_true, before_iff]
  omega

theorem notAfter_createdAt_trans (a b c : Job) (hab : a.createdAt.notAfter b.createdAt)
    (hbc : b.createdAt.notAfter c.createdAt) : a.createdAt.notAfter c.createdAt := by
  rw [notAfter_instant_iff] at hab hbc ⊢
  omega

theorem notAfter_createdAt_total (a b : Job) :
    a.createdAt.notAfter b.createdAt || b.createdAt.notAfter a.createdAt := by
  rw [Bool.or_eq_true, notAfter_instant_iff, notAfter_instant_iff]
  omega

theorem lists_byCreation (jobs : List Job) : Lists jobs (byCreation jobs) where
  perm := List.mergeSort_perm _ _
  ordered := List.pairwise_mergeSort notAfter_createdAt_trans notAfter_createdAt_total jobs

/-- Offers that were created at once keep their order. -/
theorem byCreation_stable {jobs : List Job} {a b : Job} (h : [a, b].Sublist jobs)
    (hat : a.createdAt = b.createdAt) : [a, b].Sublist (byCreation jobs) := by
  refine List.pair_sublist_mergeSort notAfter_createdAt_trans notAfter_createdAt_total ?_ h
  rw [notAfter_instant_iff, hat]
  omega

/-! ### Side by side -/

/-- The offers and attempts that an operation brings along are of the years 0 to 9999, without
leap seconds, and their identifiers have 128 bits. -/
def Operation.Plain : Operation → Prop
  | .insert job | .commit job =>
    job.id.Fits ∧ job.createdAt.Plain ∧ ∀ a ∈ job.attempts, a.timestamp.Plain
  | .record _ attempt => attempt.timestamp.Plain
  | .get _ | .pending _ | .list => True

/-- One operation on a store in memory and on a store in a file. -/
structure Exchange where
  op : Operation
  /-- the offers in memory before and after the operation -/
  held : List Job
  jobs : List Job
  memoryAnswer : Answer
  /-- the disk before and after the operation -/
  disk : Disk
  after : Disk
  fileAnswer : Answer

/-- Operations on both stores, one after the other. The memory finds its offers in some order,
which may be another one each time. -/
inductive SideBySide (store : FileStore) : List Job → Disk → List Exchange → Prop where
  | nil {held : List Job} {disk : Disk} : SideBySide store held disk []
  | cons {held found jobs : List Job} {disk after : Disk} {op : Operation}
      {memoryAnswer fileAnswer : Answer} {rest : List Exchange} (hfound : found.Perm held)
      (hmemory : MemoryStore.perform ⟨found⟩ op = (memoryAnswer, ⟨jobs⟩))
      (hfile : Disk.run (store.perform op) disk = (fileAnswer, after))
      (hrest : SideBySide store jobs after rest) :
      SideBySide store held disk (⟨op, held, jobs, memoryAnswer, disk, after, fileAnswer⟩ :: rest)

/-- The identifiers that were inserted, in the order of their insertion. -/
def insertedIds (steps : List Exchange) : List Uuid :=
  steps.flatMap fun step => step.op.added step.fileAnswer

/-- The two stores agree on an operation, and on the offers before and after it. -/
structure Agrees (step : Exchange) (kept stored : List Job) : Prop where
  answer : step.op ≠ .list → step.fileAnswer = step.memoryAnswer
  list : step.op = .list → ∃ shown listed, step.fileAnswer = .ok (.offers shown) ∧
    step.memoryAnswer = .ok (.offers listed) ∧ Lists stored shown ∧ Lists step.jobs listed ∧
    ∀ a b, [a, b].Sublist stored → a.createdAt = b.createdAt → [a, b].Sublist shown
  perm : stored.Perm step.jobs
  distinct : (stored.map Job.id).Nodup ∧ (step.jobs.map Job.id).Nodup
  others : ∀ id, step.op.target? ≠ some id →
    find? stored id = find? kept id ∧ find? step.jobs id = find? step.held id

theorem Operation.Plain.storable {op : Operation} (h : op.Plain) : op.Storable := by
  cases op with
  | insert job => exact Job.Plain.storable ⟨h.1, h.2.1, h.2.2⟩
  | commit job => exact Job.Plain.storable ⟨h.1, h.2.1, h.2.2⟩
  | record id attempt => exact Instant.Plain.inRange h
  | get id => trivial
  | pending limit => trivial
  | list => trivial

theorem Operation.Plain.settled {op : Operation} (h : op.Plain) : op.Settled := by
  cases op with
  | insert job => exact Job.Plain.settled ⟨h.1, h.2.1, h.2.2⟩
  | commit job => exact Job.Plain.settled ⟨h.1, h.2.1, h.2.2⟩
  | record id attempt => exact Attempt.settled_eq_self h
  | get id => trivial
  | pending limit => trivial
  | list => trivial

/-- The file holds the offers that are in memory, in the order of their identifiers. -/
structure Mirrors (store : FileStore) (held : List Job) (disk : Disk) (stored : List Job)
    (ids : List Uuid) : Prop where
  contents : store.contents disk = .ok stored
  perm : stored.Perm held
  order : stored.map Job.id = ids
  distinct : ids.Nodup

/-- One operation keeps the two stores alike. -/
theorem agrees_of_perform {store : FileStore} {held found jobs : List Job} {disk after : Disk}
    {op : Operation} {memoryAnswer fileAnswer : Answer} {kept : List Job} {ids : List Uuid}
    (hop : op.Plain) (hwrites : Disk.WritesSucceed (store.perform op) disk)
    (hfound : found.Perm held) (hmemory : MemoryStore.perform ⟨found⟩ op = (memoryAnswer, ⟨jobs⟩))
    (hfile : Disk.run (store.perform op) disk = (fileAnswer, after))
    (hmirrors : Mirrors store held disk kept ids) :
    Agrees ⟨op, held, jobs, memoryAnswer, disk, after, fileAnswer⟩ kept (op.after kept) ∧
      Mirrors store jobs after (op.after kept) (ids ++ op.added fileAnswer) := by
  obtain ⟨hcontents, hperm, rfl, hdistinct⟩ := hmirrors
  obtain ⟨hanswer, hstored⟩ :=
    FileStore.perform_of_writesSucceed hop.storable hop.settled hcontents hwrites
  rw [hfile] at hanswer hstored
  dsimp only at hanswer hstored
  rw [MemoryStore.perform_eq] at hmemory
  obtain ⟨hmemoryAnswer, hjobs⟩ := Prod.mk.inj hmemory
  dsimp only at hmemoryAnswer
  obtain rfl : op.after found = jobs := congrArg MemoryStore.jobs hjobs
  have horder : kept.Perm found := hperm.trans hfound.symm
  have hfoundIds : (found.map Job.id).Nodup := (horder.map Job.id).nodup_iff.mp hdistinct
  have hafter : (op.after kept).Perm (op.after found) := Operation.after_perm horder hfoundIds op
  have hdistinctAfter := Operation.nodup_after hdistinct op
  refine ⟨⟨?_, ?_, hafter, ⟨hdistinctAfter, (hafter.map Job.id).nodup_iff.mp hdistinctAfter⟩, ?_⟩,
    hstored, hafter, ?_, ?_⟩
  · intro hne
    dsimp only
    rw [hanswer, ← hmemoryAnswer, Operation.answer_perm horder hfoundIds hne]
  · rintro rfl
    exact ⟨byCreation kept, byCreation found, hanswer, hmemoryAnswer.symm, lists_byCreation kept,
      lists_byCreation found, fun a b hsub hat => byCreation_stable hsub hat⟩
  · intro id hid
    have hheld : (held.map Job.id).Nodup := (hperm.map Job.id).nodup_iff.mp hdistinct
    refine ⟨Operation.find?_after_other hid kept, ?_⟩
    dsimp only
    rw [Operation.find?_after_other hid found, find?_perm hfound hheld]
  · rw [hanswer, Operation.map_id_after]
  · rw [hanswer, ← Operation.map_id_after]
    exact hdistinctAfter

theorem agrees_at {store : FileStore} {held kept : List Job} {disk : Disk} {ids : List Uuid}
    {steps : List Exchange} (hsteps : SideBySide store held disk steps)
    (hplain : ∀ step ∈ steps, step.op.Plain)
    (hwrites : ∀ step ∈ steps, Disk.WritesSucceed (store.perform step.op) step.disk)
    (hmirrors : Mirrors store held disk kept ids) {earlier later : List Exchange} {step : Exchange}
    (hsplit : steps = earlier ++ step :: later) :
    ∃ kept stored, store.contents step.disk = .ok kept ∧ store.contents step.after = .ok stored ∧
      stored.map Job.id = ids ++ insertedIds (earlier ++ [step]) ∧ Agrees step kept stored := by
  induction hsteps generalizing kept ids earlier with
  | nil => simp at hsplit
  | cons hfound hmemory hfile hrest ih =>
    obtain ⟨hagrees, hnext⟩ := agrees_of_perform (hplain _ List.mem_cons_self)
      (hwrites _ List.mem_cons_self) hfound hmemory hfile hmirrors
    cases earlier with
    | nil =>
      obtain ⟨rfl, rfl⟩ := List.cons.inj hsplit
      exact ⟨kept, _, hmirrors.contents, hnext.contents,
        by simpa [insertedIds] using hnext.order, hagrees⟩
    | cons first earlier =>
      obtain ⟨rfl, rfl⟩ := List.cons.inj hsplit
      obtain ⟨kept', stored, hkept, hstored, horder, hagrees⟩ := ih
        (fun step hstep => hplain step (List.mem_cons_of_mem _ hstep))
        (fun step hstep => hwrites step (List.mem_cons_of_mem _ hstep)) hnext rfl
      exact ⟨kept', stored, hkept, hstored, by simpa [insertedIds] using horder, hagrees⟩

/-- There is no job file yet, or a blank one. -/
def FileStore.Fresh (store : FileStore) (disk : Disk) : Prop :=
  disk.tree.readText store.path = .error .notFound ∨
    ∃ text, disk.tree.readText store.path = .ok text ∧ Text.isBlank text

theorem FileStore.Fresh.contents {store : FileStore} {disk : Disk} (h : store.Fresh disk) :
    store.contents disk = .ok [] := by
  rcases h with hmissing | ⟨text, hread, hblank⟩
  · exact store.contents_of_notFound hmissing
  · exact store.contents_of_readText hread (if_pos hblank)

/-- From nothing at all, and as long as no write fails, the store in a file and the store in
memory agree on every operation and on the offers after it; the file keeps the offers in the
order of their insertion. -/
theorem fileStore_refines_memoryStore {store : FileStore} {disk : Disk} {steps : List Exchange}
    (hfresh : store.Fresh disk) (hsteps : SideBySide store [] disk steps)
    (hplain : ∀ step ∈ steps, step.op.Plain)
    (hwrites : ∀ step ∈ steps, Disk.WritesSucceed (store.perform step.op) step.disk)
    {earlier later : List Exchange} {step : Exchange} (hsplit : steps = earlier ++ step :: later) :
    ∃ kept stored, store.contents step.disk = .ok kept ∧ store.contents step.after = .ok stored ∧
      stored.map Job.id = insertedIds (earlier ++ [step]) ∧ Agrees step kept stored := by
  have hmirrors : Mirrors store [] disk [] [] := ⟨hfresh.contents, .refl _, rfl, .nil⟩
  simpa using agrees_at hsteps hplain hwrites hmirrors hsplit

/-- The first offer is inserted into both stores. -/
def insertion : Exchange :=
  let ran := Disk.run (newStore.perform (.insert firstOffer)) emptyDisk
  ⟨.insert firstOffer, [], [firstOffer], .ok .done, emptyDisk, ran.2, ran.1⟩

/-- Then the offers of both stores are listed. -/
def listing : Exchange :=
  let ran := Disk.run (newStore.perform .list) insertion.after
  ⟨.list, [firstOffer], [firstOffer], .ok (.offers (byCreation [firstOffer])), insertion.after,
    ran.2, ran.1⟩

theorem fileStore_refines_memoryStore_listing :
    ∃ kept stored, newStore.contents listing.disk = .ok kept ∧
      newStore.contents listing.after = .ok stored ∧
      stored.map Job.id = insertedIds ([insertion] ++ [listing]) ∧ Agrees listing kept stored := by
  have hoffer : (Operation.insert firstOffer).Plain :=
    ⟨by unfold Uuid.Fits; decide, ⟨by decide, by decide⟩, nofun⟩
  have hwrites : Disk.WritesSucceed (newStore.perform (.insert firstOffer)) emptyDisk :=
    ⟨trivial, trivial, rfl, rfl, rfl, trivial, trivial⟩
  have hlisting : SideBySide newStore [firstOffer] insertion.after [listing] :=
    .cons (.refl _) rfl (Prod.mk.eta).symm .nil
  have hinsertion : SideBySide newStore [] emptyDisk [insertion, listing] :=
    .cons (.refl _) rfl (Prod.mk.eta).symm hlisting
  refine fileStore_refines_memoryStore (.inl rfl) hinsertion ?_ ?_ rfl
  · simpa using ⟨hoffer, trivial⟩
  · simpa using ⟨hwrites, FileStore.writesSucceed_of_view rfl _⟩

end Jobflow.Job
