import Jobflow.Proofs.Files.Interleaving
import Jobflow.Proofs.Job.Stored

/-!
Operations on one store in a file that are under way at the same time. Whatever the turns are in
which their steps are taken, they have the effect of the same operations one after the other.
-/

namespace Jobflow.Job

open Jobflow.Files

variable {ι : Type}

namespace FileStore

/-- Performs operations one after the other. -/
def performAll (store : FileStore) (ops : List Operation) : Filing (List Answer) :=
  Filing.oneByOne (ops.map store.perform)

/-- What an operation does while it has the lock. -/
def body (store : FileStore) (op : Operation) : Filing Answer := do
  store.finish op (← store.readAll)

/-! ### Work under the lock -/

theorem avoids_writeAll (store : FileStore) {bad : FileOp → Prop}
    (hbad : ∀ directory temporary path text, ¬ bad (.makeDirectories directory) ∧
      ¬ bad (.create temporary) ∧ ¬ bad (.append temporary text) ∧ ¬ bad (.rename temporary path))
    (jobs : List Job) : (store.writeAll jobs).Avoids bad := by
  obtain ⟨-, hcreate, happend, hrename⟩ := hbad "" store.temporary store.path (fileText jobs)
  have hthen : ∀ first second : Filing (Except IoError Unit), first.Avoids bad → second.Avoids bad →
      (Filing.andThen first second).Avoids bad := by
    intro first second hfirst hsecond
    refine hfirst.bind fun result => ?_
    cases result with
    | ok _ => exact hsecond
    | error e => trivial
  have hrewrite : (Filing.rewrite store.temporary store.path (fileText jobs)).Avoids bad :=
    hthen _ _ ⟨hcreate, fun _ => trivial⟩
      (hthen _ _ ⟨happend, fun _ => trivial⟩ ⟨hrename, fun _ => trivial⟩)
  have hreplace :
      (Filing.replace store.directory store.temporary store.path (fileText jobs)).Avoids bad := by
    rw [Filing.replace_eq]
    cases store.directory with
    | none => exact hrewrite
    | some directory => exact hthen _ _ ⟨(hbad directory "" "" "").1, fun _ => trivial⟩ hrewrite
  exact hreplace.bind fun _ => trivial

theorem avoids_finish (store : FileStore) {bad : FileOp → Prop}
    (hbad : ∀ directory temporary path text, ¬ bad (.makeDirectories directory) ∧
      ¬ bad (.create temporary) ∧ ¬ bad (.append temporary text) ∧ ¬ bad (.rename temporary path))
    (op : Operation) (found : Except StoreError (List Job)) :
    (store.finish op found).Avoids bad := by
  cases found with
  | error e => trivial
  | ok jobs =>
    cases hanswer : op.answer jobs with
    | error e =>
      rw [finish_of_error hanswer]
      trivial
    | ok reply =>
      rw [finish_of_ok hanswer]
      split
      · exact (store.avoids_writeAll hbad _).bind fun _ => trivial
      · trivial

theorem body_eq (store : FileStore) (op : Operation) :
    store.body op = .step (.readText store.path) fun answer =>
      store.finish op (store.decode answer) := by
  rw [body, readAll_eq]
  rfl

theorem work_body (store : FileStore) (op : Operation) : Work (store.body op) where
  lockFree := by
    rw [body_eq]
    exact ⟨nofun, fun answer =>
      store.avoids_finish (fun _ _ _ _ => ⟨nofun, nofun, nofun, nofun⟩) op _⟩
  readsFirst first next heq answer := by
    rw [body_eq] at heq
    cases heq
    exact store.avoids_finish (fun _ _ _ _ => ⟨nofun, nofun, nofun, nofun⟩) op _

/-! ### One after the other -/

theorem run_performAll_append (store : FileStore) (first second : List Operation) (disk : Disk) :
    Disk.run (store.performAll (first ++ second)) disk =
      ((Disk.run (store.performAll first) disk).1 ++
          (Disk.run (store.performAll second) (Disk.run (store.performAll first) disk).2).1,
        (Disk.run (store.performAll second) (Disk.run (store.performAll first) disk).2).2) := by
  unfold performAll
  rw [List.map_append, Disk.run_oneByOne_append]

theorem run_performAll_singleton (store : FileStore) (op : Operation) (disk : Disk) :
    Disk.run (store.performAll [op]) disk =
      ([(Disk.run (store.perform op) disk).1], (Disk.run (store.perform op) disk).2) :=
  Disk.run_oneByOne_singleton _ _

/-- The changes among some operations that succeeded. -/
def succeeded (ops : List Operation) (answers : List Answer) : List Operation :=
  ((ops.zip answers).filter fun (op, answer) => op.isChange && answer.isOk).map Prod.fst

/-- The offers after some changes, each time as they are read back from the file. -/
def changed (jobs : List Job) (ops : List Operation) : List Job :=
  ops.foldl (fun jobs op => (op.after jobs).map Job.settled) jobs

variable {store : FileStore} {disk : Disk} {jobs : List Job} {op : Operation}

/-- From the moment the file can be read it holds what the successful changes make of it. -/
theorem contents_of_performAll {ops : List Operation} (hops : ∀ op ∈ ops, op.Storable)
    {text : String} (hread : disk.tree.readText store.path = .ok text)
    (hcontents : store.contents disk = .ok jobs) :
    store.contents (Disk.run (store.performAll ops) disk).2 =
      .ok (changed jobs (succeeded ops (Disk.run (store.performAll ops) disk).1)) := by
  induction ops generalizing disk jobs text with
  | nil => exact hcontents
  | cons op ops ih =>
    have hrest := fun other hother => hops other (List.mem_cons_of_mem op hother)
    rw [← List.singleton_append, run_performAll_append, run_performAll_singleton]
    dsimp only
    rcases op.isChange_and_ok_or (Disk.run (store.perform op) disk).1 with
      ⟨hchange, reply, hanswer⟩ | hleft
    · obtain ⟨found, hfound, hafter, hleft⟩ :=
        contents_of_change (hops op List.mem_cons_self) hchange hanswer
      obtain rfl := Except.ok.inj (hfound.symm.trans hcontents)
      rw [ih hrest hafter hleft]
      simp [succeeded, changed, hanswer, hchange, Except.isOk, Except.toBool]
    · have hkept := readText_of_no_change hread hleft
      have hsame : store.contents (Disk.run (store.perform op) disk).2 = .ok jobs := by
        rw [← hcontents, contents, contents, hkept, hread]
      have hnone : (op.isChange && (Disk.run (store.perform op) disk).1.isOk) = false := by
        rcases hleft with hview | ⟨e, he⟩
        · simp [hview]
        · simp [he, Except.isOk, Except.toBool]
      rw [ih hrest hkept hsame]
      simp [succeeded, hnone]

/-! ### Side by side -/

section

variable (store : FileStore) (calls : ι → Operation) (start : Disk)

/-- Calls that begin on a disk, with the lock of the store free. -/
def together : Joint ι Answer where
  threads i := store.perform (calls i)
  holder _ := none
  disk := start

/-- The answers of some calls and the disk after them, had they been made one after the other. -/
def inSequence (order : List ι) : List Answer × Disk :=
  Disk.run (store.performAll (order.map calls)) start

/-- Calls that were made at the same time have the effect of the same calls in a sequence. -/
structure Linearized (order : List ι) (joint : Joint ι Answer) : Prop where
  distinct : order.Nodup
  /-- the calls of the sequence are those that have returned -/
  returned : ∀ i, i ∈ order ↔ ∃ answer, joint.threads i = .done answer
  /-- with the answers that the sequence gives them -/
  answers : order.map joint.threads = (store.inSequence calls start order).1.map .done
  /-- while no call has the lock, the disk is the one that the sequence leaves -/
  disk : joint.holder lock = none → joint.disk = (store.inSequence calls start order).2
  /-- and no call has it when all have returned -/
  free : (∀ i, ∃ answer, joint.threads i = .done answer) → joint.holder lock = none
  /-- a call that is about to read finds the disk that the sequence leaves -/
  reading : ∀ i path next, joint.threads i = .step (.readText path) next →
    joint.disk = (store.inSequence calls start order).2

/-- In a sequence of calls no change that succeeded is lost. -/
structure Keeps (order : List ι) (joint : Joint ι Answer) : Prop where
  /-- a change is made to the offers that the file held, and is in the file after it -/
  changed : ∀ earlier i later reply, order = earlier ++ i :: later → (calls i).isChange = true →
    joint.threads i = .done (.ok reply) →
    ∃ jobs, store.contents (store.inSequence calls start earlier).2 = .ok jobs ∧
      (store.inSequence calls start (earlier ++ [i])).2.tree.readText store.path =
        .ok (fileText ((calls i).after jobs)) ∧
      store.contents (store.inSequence calls start (earlier ++ [i])).2 =
        .ok (((calls i).after jobs).map Job.settled)
  /-- what the file holds once it can be read stays, with the changes that succeed later -/
  lasting : ∀ earlier later text jobs answers, order = earlier ++ later →
    (store.inSequence calls start earlier).2.tree.readText store.path = .ok text →
    store.contents (store.inSequence calls start earlier).2 = .ok jobs →
    later.map joint.threads = answers.map .done →
    store.contents (store.inSequence calls start order).2 =
      .ok (FileStore.changed jobs (succeeded (later.map calls) answers))

variable {store calls start}

theorem inOrder_body (order : List ι) :
    inOrder lock (fun i => store.body (calls i)) start order =
      store.inSequence calls start order := by
  unfold inOrder inSequence performAll
  rw [List.map_map]
  congr 2
  exact List.map_congr_left fun i _ => (store.perform_eq (calls i)).symm

theorem inSequence_append (first second : List ι) :
    store.inSequence calls start (first ++ second) =
      ((store.inSequence calls start first).1 ++
          (store.inSequence calls (store.inSequence calls start first).2 second).1,
        (store.inSequence calls (store.inSequence calls start first).2 second).2) := by
  unfold inSequence
  rw [List.map_append, run_performAll_append]

theorem inSequence_singleton (i : ι) :
    store.inSequence calls start [i] =
      ([(Disk.run (store.perform (calls i)) start).1],
        (Disk.run (store.perform (calls i)) start).2) :=
  store.run_performAll_singleton _ _

theorem linearized_of_orderly {order : List ι} {joint : Joint ι Answer}
    (h : Orderly lock (fun i => store.body (calls i)) start order joint) :
    Linearized store calls start order joint := by
  obtain ⟨hdistinct, hanswers, -, hidle, hworking⟩ := id h
  rw [inOrder_body] at hanswers hidle
  refine ⟨hdistinct, fun i => h.done_iff_mem.symm, hanswers, hidle, ?_, ?_⟩
  · intro hall
    cases hholder : joint.holder lock with
    | none => rfl
    | some i => exact absurd (h.done_iff_mem.mp (hall i)) (hworking i hholder).1
  · intro i path next hi
    rw [h.disk_of_reading hi, inOrder_body]

theorem length_inSequence (order : List ι) :
    (store.inSequence calls start order).1.length = order.length := by
  induction order generalizing start with
  | nil => rfl
  | cons i order ih =>
    rw [← List.singleton_append, inSequence_append, List.length_append, ih, inSequence_singleton,
      List.length_append]
    rfl

/-- The answers of the later calls are those they give after the earlier ones. -/
theorem Linearized.answers_later {order earlier later : List ι} {joint : Joint ι Answer}
    (h : Linearized store calls start order joint) (hsplit : order = earlier ++ later) :
    later.map joint.threads =
      (store.inSequence calls (store.inSequence calls start earlier).2 later).1.map .done := by
  have hanswers := h.answers
  rw [hsplit, inSequence_append, List.map_append, List.map_append] at hanswers
  exact (List.append_inj hanswers (by simp [length_inSequence])).2

theorem Linearized.keeps {order : List ι} {joint : Joint ι Answer}
    (h : Linearized store calls start order joint) (hcalls : ∀ i, (calls i).Storable) :
    Keeps store calls start order joint := by
  refine ⟨?_, ?_⟩
  · intro earlier i later reply hsplit hchange hdone
    have hlater := h.answers_later hsplit
    rw [← List.singleton_append, inSequence_append, inSequence_singleton] at hlater
    have hthread := (List.cons.inj hlater).1
    have hanswer := Program.done.inj (hthread.symm.trans hdone)
    rw [inSequence_append, inSequence_singleton]
    exact contents_of_change (hcalls i) hchange hanswer
  · intro earlier later text jobs answers hsplit hread hcontents hanswers
    have hsame := hanswers.symm.trans (h.answers_later hsplit)
    have hinjective : Function.Injective (Program.done : Answer → Filing Answer) :=
      fun _ _ => Program.done.inj
    obtain rfl := hinjective.list_map hsame
    rw [hsplit, inSequence_append]
    refine contents_of_performAll (fun op hop => ?_) hread hcontents
    obtain ⟨i, -, rfl⟩ := List.mem_map.mp hop
    exact hcalls i

end

/-- Whatever the turns are in which calls on one store take their steps, the calls that have
returned gave the answers, and left the file, of the same calls made one after the other in the
order in which they returned. A call that returned before another began is before it in that
order, no call reads what another has not finished writing, and no change is lost. -/
theorem fileStore_linearizable [DecidableEq ι] (store : FileStore) {calls : ι → Operation}
    (hcalls : ∀ i, (calls i).Storable) (start : Disk) (schedule : List ι) :
    Linearized store calls start ((store.together calls start).completions schedule)
        ((store.together calls start).play schedule) ∧
      (∀ earlier later, schedule = earlier ++ later → ∀ a b,
        (∃ answer, ((store.together calls start).play earlier).threads a = .done answer) →
        ((store.together calls start).play earlier).threads b = store.perform (calls b) →
        b ∈ (store.together calls start).completions schedule →
        [a, b].Sublist ((store.together calls start).completions schedule)) ∧
      Keeps store calls start ((store.together calls start).completions schedule)
        ((store.together calls start).play schedule) := by
  have hstart : Orderly lock (fun i => store.body (calls i)) start []
      (store.together calls start) := by
    have hbegin : store.together calls start =
        Joint.start lock (fun i => store.body (calls i)) start := by
      unfold together Joint.start
      congr
      funext i
      exact store.perform_eq (calls i)
    rw [hbegin]
    exact orderly_start lock _ start
  have hwork := fun i => store.work_body (calls i)
  have horderly := hstart.play hwork schedule
  rw [List.nil_append] at horderly
  have hlinear := linearized_of_orderly horderly
  refine ⟨hlinear, ?_, hlinear.keeps hcalls⟩
  intro earlier later hsplit a b hdone hidle hb
  have hearlier := hstart.play hwork earlier
  rw [List.nil_append] at hearlier
  have ha : a ∈ (store.together calls start).completions earlier := hearlier.done_iff_mem.mp hdone
  have hnot : b ∉ (store.together calls start).completions earlier := by
    rw [perform_eq] at hidle
    exact hearlier.not_mem_of_step hidle
  rw [hsplit, Joint.completions_append] at hb ⊢
  have hb' := (List.mem_append.mp hb).resolve_left hnot
  exact (List.singleton_sublist.mpr ha).append (List.singleton_sublist.mpr hb')

/-- One call inserts an offer while another lists the offers. -/
def insertAndList : Bool → Operation
  | false => .insert firstOffer
  | true => .list

/-- The listing takes the lock; the insertion has to wait for it. -/
def waitingTurns : List Bool :=
  [true, false, true, false, true] ++ [false, false, false, false, false, false]

theorem fileStore_linearizable_two :
    (∀ i, (insertAndList i).Storable) ∧
      let calls := newStore.together insertAndList emptyDisk
      calls.completions waitingTurns = [true, false] ∧
      Linearized newStore insertAndList emptyDisk [true, false] (calls.play waitingTurns) ∧
      Keeps newStore insertAndList emptyDisk [true, false] (calls.play waitingTurns) := by
  have hcalls : ∀ i, (insertAndList i).Storable := by
    rintro (_ | _)
    · exact storable_firstOffer
    · trivial
  have horder : (newStore.together insertAndList emptyDisk).completions waitingTurns =
      [true, false] := rfl
  have h := fileStore_linearizable newStore hcalls emptyDisk waitingTurns
  rw [horder] at h
  exact ⟨hcalls, horder, h.1, h.2.2⟩

end FileStore

end Jobflow.Job
