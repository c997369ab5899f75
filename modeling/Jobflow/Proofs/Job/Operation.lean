import Jobflow.Job.Store
import Jobflow.Proofs.Files.Replacing

/-!
The operations of a backlog as data. What an operation does to a list of offers is one
function; the store in memory applies it to its list, and the store in a file to what it reads
under the lock, writing the whole list again if the operation is a change.
-/

namespace Jobflow.Job

open Jobflow.Files

/-! ### Changes of one offer -/

theorem updateFirst_of_find?_eq_none {jobs : List Job} {id : Uuid} (h : find? jobs id = none)
    (change : Job → Job) : updateFirst id change jobs = jobs := by
  induction jobs with
  | nil => rfl
  | cons job rest ih =>
    rw [find?, List.find?_cons] at h
    split at h
    · cases h
    · next hid =>
      rw [updateFirst, if_neg (by simpa using hid), ih h]

theorem find?_updateFirst_other {id other : Uuid} {change : Job → Job}
    (h : ∀ job, job.id = id → (change job).id = id) (hother : other ≠ id) (jobs : List Job) :
    find? (updateFirst id change jobs) other = find? jobs other := by
  induction jobs with
  | nil => rfl
  | cons job rest ih =>
    rw [updateFirst]
    split
    · next hid =>
      have hne : ¬ id = other := fun heq => hother heq.symm
      simp [find?, h job hid, hid, hne]
    · simp only [find?, List.find?_cons] at ih ⊢
      rw [ih]

theorem find?_updateFirst_self {id : Uuid} {change : Job → Job}
    (h : ∀ job, job.id = id → (change job).id = id) (jobs : List Job) :
    find? (updateFirst id change jobs) id = (find? jobs id).map change := by
  induction jobs with
  | nil => rfl
  | cons job rest ih =>
    rw [updateFirst]
    split
    · next hid => simp [find?, h job hid, hid]
    · next hid =>
      simp only [find?, List.find?_cons] at ih ⊢
      simp [hid, ih]

theorem map_id_updateFirst {id : Uuid} {change : Job → Job}
    (h : ∀ job, job.id = id → (change job).id = id) (jobs : List Job) :
    (updateFirst id change jobs).map Job.id = jobs.map Job.id := by
  induction jobs with
  | nil => rfl
  | cons job rest ih =>
    rw [updateFirst]
    split
    · next hid => simp [h job hid, hid]
    · simp [ih]

/-- A recorded attempt leaves the offer its identifier. -/
theorem keeps_id_recordAttempt {id : Uuid} (attempt : Attempt) :
    ∀ job : Job, job.id = id → (job.recordAttempt attempt).id = id := fun _ h => h

theorem id_of_find? {jobs : List Job} {id : Uuid} {job : Job} (h : find? jobs id = some job) :
    job.id = id := by
  simpa using List.find?_some h

/-! ### Operations -/

/-- An operation on a backlog. -/
inductive Operation where
  | insert (job : Job)
  | commit (job : Job)
  | record (id : Uuid) (attempt : Attempt)
  | get (id : Uuid)
  | pending (limit : Nat)
  | list
  deriving DecidableEq, Repr

/-- What an operation gives back. -/
inductive Reply where
  | done
  | recorded (status : Status)
  | offer (job : Option Job)
  | offers (jobs : List Job)
  deriving DecidableEq, Repr

abbrev Answer := Except StoreError Reply

namespace Operation

/-- Whether the operation changes the backlog when it succeeds. -/
def isChange : Operation → Bool
  | .insert _ | .commit _ | .record _ _ => true
  | .get _ | .pending _ | .list => false

/-- What the operation gives back on a list of offers, and the list after it. -/
def apply (jobs : List Job) : Operation → Except StoreError (Reply × List Job)
  | .insert job => (Job.insert jobs job).map fun after => (.done, after)
  | .commit job => (Job.commit jobs job).map fun after => (.done, after)
  | .record id attempt => (Job.record jobs id attempt).map fun after =>
      (.recorded attempt.status, after)
  | .get id => .ok (.offer (find? jobs id), jobs)
  | .pending limit => .ok (.offers (selectPending jobs limit), jobs)
  | .list => .ok (.offers (byCreation jobs), jobs)

/-- The answer on a list of offers. -/
def answer (jobs : List Job) (op : Operation) : Answer := (op.apply jobs).map Prod.fst

/-- The list of offers after the operation; a failure leaves it as it is. -/
def after (jobs : List Job) (op : Operation) : List Job :=
  match op.apply jobs with
  | .ok (_, after) => after
  | .error _ => jobs

section

variable (jobs : List Job) (job : Job) (id : Uuid) (attempt : Attempt) (limit : Nat)

theorem after_insert :
    after jobs (.insert job) = if (find? jobs job.id).isSome then jobs else jobs ++ [job] := by
  simp only [after, apply, Job.insert]
  cases (find? jobs job.id).isSome <;> rfl

theorem after_commit : after jobs (.commit job) = updateFirst job.id (fun _ => job) jobs := by
  simp only [after, apply, Job.commit]
  cases hfound : find? jobs job.id with
  | none => rw [updateFirst_of_find?_eq_none hfound]; rfl
  | some old => rfl

theorem after_record :
    after jobs (.record id attempt) = updateFirst id (·.recordAttempt attempt) jobs := by
  simp only [after, apply, Job.record]
  cases hfound : find? jobs id with
  | none => rw [updateFirst_of_find?_eq_none hfound]; rfl
  | some old => rfl

@[simp] theorem after_get : after jobs (.get id) = jobs := rfl

@[simp] theorem after_pending : after jobs (.pending limit) = jobs := rfl

@[simp] theorem after_list : after jobs .list = jobs := rfl

theorem answer_insert : answer jobs (.insert job) =
    if (find? jobs job.id).isSome then .error (.duplicate job.id) else .ok .done := by
  simp only [answer, apply, Job.insert]
  cases (find? jobs job.id).isSome <;> rfl

theorem answer_commit : answer jobs (.commit job) =
    if (find? jobs job.id).isSome then .ok .done else .error (.notFound job.id) := by
  simp only [answer, apply, Job.commit]
  cases (find? jobs job.id).isSome <;> rfl

theorem answer_record : answer jobs (.record id attempt) =
    if (find? jobs id).isSome then .ok (.recorded attempt.status) else .error (.notFound id) := by
  simp only [answer, apply, Job.record]
  cases (find? jobs id).isSome <;> rfl

end

/-- The identifier of the offer that the operation is about. -/
def target? : Operation → Option Uuid
  | .insert job | .commit job => some job.id
  | .record id _ => some id
  | .get _ | .pending _ | .list => none

/-- An operation changes no other offer than the one it is about. -/
theorem find?_after_other {op : Operation} {id : Uuid} (h : op.target? ≠ some id)
    (jobs : List Job) :
    find? (op.after jobs) id = find? jobs id := by
  cases op with
  | insert job =>
    have hne : ¬ job.id = id := fun heq => h (congrArg some heq)
    rw [after_insert]
    split
    · rfl
    · simp [find?, List.find?_append, hne]
  | commit job =>
    rw [after_commit]
    exact find?_updateFirst_other (fun _ _ => rfl) (fun heq => h (congrArg some heq.symm)) jobs
  | record other attempt =>
    rw [after_record]
    exact find?_updateFirst_other (keeps_id_recordAttempt attempt)
      (fun heq => h (congrArg some heq.symm)) jobs
  | get id => rfl
  | pending limit => rfl
  | list => rfl

theorem after_of_not_isChange {op : Operation} (h : op.isChange = false) (jobs : List Job) :
    op.after jobs = jobs := by
  cases op <;> first | rfl | cases h

/-- An operation is a change that succeeded, or leaves things as they are. -/
theorem isChange_and_ok_or (op : Operation) (answer : Answer) :
    (op.isChange = true ∧ ∃ reply, answer = .ok reply) ∨
      (op.isChange = false ∨ ∃ e, answer = .error e) := by
  cases hchange : op.isChange with
  | false => exact .inr (.inl rfl)
  | true =>
    cases answer with
    | ok reply => exact .inl ⟨rfl, reply, rfl⟩
    | error e => exact .inr (.inr ⟨e, rfl⟩)

theorem after_of_error {op : Operation} {jobs : List Job} {e : StoreError}
    (h : op.answer jobs = .error e) : op.after jobs = jobs := by
  unfold answer at h
  unfold after
  cases happly : op.apply jobs with
  | error e => rfl
  | ok result =>
    rw [happly] at h
    cases h

end Operation

/-! ### In memory -/

/-- The answer of a store in memory, and the store after the operation. -/
def MemoryStore.perform (store : MemoryStore) : Operation → Answer × MemoryStore
  | .insert job =>
    match store.insert job with
    | .ok after => (.ok .done, after)
    | .error e => (.error e, store)
  | .commit job =>
    match store.commit job with
    | .ok after => (.ok .done, after)
    | .error e => (.error e, store)
  | .record id attempt =>
    match store.record id attempt with
    | .ok after => (.ok (.recorded attempt.status), after)
    | .error e => (.error e, store)
  | .get id => (.ok (.offer (store.get id)), store)
  | .pending limit => (.ok (.offers (store.pending limit)), store)
  | .list => (.ok (.offers store.list), store)

theorem MemoryStore.perform_eq (store : MemoryStore) (op : Operation) :
    store.perform op = (op.answer store.jobs, ⟨op.after store.jobs⟩) := by
  unfold Operation.answer Operation.after
  cases op with
  | insert job =>
    simp only [perform, MemoryStore.insert, Operation.apply]
    cases Job.insert store.jobs job <;> rfl
  | commit job =>
    simp only [perform, MemoryStore.commit, Operation.apply]
    cases Job.commit store.jobs job <;> rfl
  | record id attempt =>
    simp only [perform, MemoryStore.record, Operation.apply]
    cases Job.record store.jobs id attempt <;> rfl
  | get id => rfl
  | pending limit => rfl
  | list => rfl

/-! ### In a file -/

namespace FileStore

variable (store : FileStore)

/-- The answer of a store in a file. -/
def perform : Operation → Filing Answer
  | .insert job => do return (← store.insert job).map fun _ => .done
  | .commit job => do return (← store.commit job).map fun _ => .done
  | .record id attempt => do return (← store.record id attempt).map .recorded
  | .get id => do return (← store.get id).map .offer
  | .pending limit => do return (← store.pending limit).map .offers
  | .list => do return (← store.list).map .offers

/-- The offers in the text that was read; a missing file holds none. -/
def decode : Except IoError String → Except StoreError (List Job)
  | .ok text =>
    match parseFile text with
    | .ok jobs => .ok jobs
    | .error e => .error (.corrupt (store.path ++ ": " ++ e.message))
  | .error .notFound => .ok []
  | .error e => .error (.io (store.path ++ ": " ++ e.message))

theorem readAll_eq : store.readAll = do return store.decode (← Filing.readText store.path) := by
  unfold readAll
  refine bind_congr fun answer => ?_
  rcases answer with e | text
  · cases e <;> rfl
  · simp only [decode]
    cases parseFile text <;> rfl

/-- What an operation does on the offers that were read. -/
def finish (op : Operation) : Except StoreError (List Job) → Filing Answer
  | .error e => return .error e
  | .ok jobs =>
    match op.apply jobs with
    | .error e => return .error e
    | .ok (reply, changed) =>
      if op.isChange then do return (← store.writeAll changed).map fun _ => reply
      else return .ok reply

variable {store}

theorem finish_of_error {op : Operation} {jobs : List Job} {e : StoreError}
    (h : op.answer jobs = .error e) : store.finish op (.ok jobs) = pure (.error e) := by
  unfold Operation.answer at h
  cases happly : op.apply jobs with
  | error e' =>
    rw [happly] at h
    obtain rfl := Except.error.inj h
    simp [finish, happly]
  | ok result =>
    rw [happly] at h
    cases h

theorem finish_of_ok {op : Operation} {jobs : List Job} {reply : Reply}
    (h : op.answer jobs = .ok reply) :
    store.finish op (.ok jobs) =
      if op.isChange then do return (← store.writeAll (op.after jobs)).map fun _ => reply
      else return .ok reply := by
  unfold Operation.answer at h
  cases happly : op.apply jobs with
  | error e =>
    rw [happly] at h
    cases h
  | ok result =>
    rw [happly] at h
    obtain rfl := Except.ok.inj h
    simp [finish, Operation.after, happly]

variable (store)

theorem holding_bind_pure {α β : Type} (name : String) (body : Filing α) (f : α → β) :
    (do return f (← Filing.holding name body)) = Filing.holding name (do return f (← body)) := by
  simp only [Filing.holding, bind_assoc, pure_bind]

theorem view_eq {α : Type} (look : List Job → α) (wrap : α → Reply) {op : Operation}
    (happly : ∀ jobs, op.apply jobs = .ok (wrap (look jobs), jobs)) (hview : op.isChange = false) :
    (do return (← store.view look).map wrap) =
      Filing.holding lock (do store.finish op (← store.readAll)) := by
  rw [view, holding_bind_pure]
  congr 1
  simp only [bind_assoc, pure_bind]
  refine bind_congr fun found => ?_
  cases found with
  | error e => rfl
  | ok jobs => simp [finish, happly, hview, Except.map]

theorem modify_eq (change : List Job → Except StoreError (List Job)) (reply : Reply)
    {op : Operation}
    (happly : ∀ jobs, op.apply jobs = (change jobs).map fun after => (reply, after))
    (hchange : op.isChange = true) :
    (do return (← store.modify change).map fun _ => reply) =
      Filing.holding lock (do store.finish op (← store.readAll)) := by
  rw [modify, holding_bind_pure]
  congr 1
  simp only [bind_assoc]
  refine bind_congr fun found => ?_
  cases found with
  | error e => rfl
  | ok jobs =>
    simp only [finish, happly]
    cases change jobs with
    | error e => rfl
    | ok changed => simp [Except.map, hchange]

/-- Every operation reads the offers under the lock and goes on with them. -/
theorem perform_eq (op : Operation) :
    store.perform op = Filing.holding lock (do store.finish op (← store.readAll)) := by
  cases op with
  | insert job => exact store.modify_eq _ .done (fun _ => rfl) rfl
  | commit job => exact store.modify_eq _ .done (fun _ => rfl) rfl
  | record id attempt =>
    rw [← store.modify_eq _ (.recorded attempt.status) (fun _ => rfl) rfl, perform, record]
    simp only [bind_assoc, pure_bind]
    refine bind_congr fun written => ?_
    cases written <;> rfl
  | get id => exact store.view_eq _ .offer (fun _ => rfl) rfl
  | pending limit => exact store.view_eq _ .offers (fun _ => rfl) rfl
  | list => exact store.view_eq _ .offers (fun _ => rfl) rfl

end FileStore

end Jobflow.Job
