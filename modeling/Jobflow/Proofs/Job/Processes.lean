import Jobflow.Proofs.Job.Concurrency
import Jobflow.Proofs.Job.Rearming

/-!
Operations on one job file through several stores, each with a lock of its own, as when several
processes use the file. The lock of a store keeps its own operations apart and no others. A change
that reads the file while a change of another store is being written undoes that change. As long as
none does, the changes have the effect of one after the other, and none is lost.
-/

namespace Jobflow

namespace Files

/-- Changes files. -/
def FileOp.Changes : FileOp → Prop
  | .makeDirectories _ | .create _ | .append .. | .rename .. => True
  | _ => False

variable {ι α : Type}

/-- The program is about to read a file. -/
def Joint.IsReading (joint : Joint ι α) (i : ι) : Prop :=
  ∃ path next, joint.threads i = .step (.readText path) next

/-- The program is about to change a file. -/
def Joint.IsWriting (joint : Joint ι α) (i : ι) : Prop :=
  ∃ op next, joint.threads i = .step op next ∧ op.Changes

/-- All that the program does is to change files. -/
abbrev OnlyChanges (p : Filing α) : Prop := p.Avoids fun (op : FileOp) => ¬ op.Changes

theorem FileOp.Changes.not_locks {op : FileOp} (h : op.Changes) : ¬ op.Locks := by
  cases op with
  | acquire => cases h
  | release => cases h
  | _ => exact not_false

section
variable [DecidableEq ι] {joint : Joint ι α} {i j : ι} {p : Filing α} {holder : String → Option ι}
  {disk : Disk}

/-- A joint state in which one program has gone on. -/
def Joint.goOn (joint : Joint ι α) (i : ι) (p : Filing α) (holder : String → Option ι)
    (disk : Disk) : Joint ι α :=
  ⟨Function.update joint.threads i p, holder, disk⟩

theorem Joint.threads_goOn_self : (joint.goOn i p holder disk).threads i = p :=
  Function.update_self _ _ _

theorem Joint.threads_goOn_of_ne (h : j ≠ i) :
    (joint.goOn i p holder disk).threads j = joint.threads j :=
  Function.update_of_ne h _ _

theorem Joint.isWriting_goOn_of_ne (h : j ≠ i) :
    (joint.goOn i p holder disk).IsWriting j ↔ joint.IsWriting j := by
  unfold Joint.IsWriting
  rw [Joint.threads_goOn_of_ne h]

theorem Joint.threads_step_of_ne (h : j ≠ i) : (joint.step i).threads j = joint.threads j := by
  cases hi : joint.threads i with
  | done a => rw [step_of_done hi]
  | step op next =>
    by_cases hblocked : joint.isBlocked op
    · rw [step_of_blocked hi hblocked]
    · rw [step_of_free hi (by simpa using hblocked)]
      exact Function.update_of_ne h _ _

theorem Joint.play_append (joint : Joint ι α) (first second : List ι) :
    joint.play (first ++ second) = (joint.play first).play second := List.foldl_append

/-- What an operation that need not wait does to the joint state. -/
theorem Joint.step_eq_goOn {op : FileOp} {next : op.Answer → Filing α}
    (h : joint.threads i = .step op next)
    (hfree : joint.isBlocked op = false) :
    joint.step i = joint.goOn i (next (Disk.act op joint.disk).1) (joint.holderAfter i op)
      (Disk.act op joint.disk).2 :=
  Joint.step_of_free h hfree

/-- What a change of the files does to the joint state. -/
theorem Joint.step_of_changes {op : FileOp} {next : op.Answer → Filing α}
    (h : joint.threads i = .step op next) (hop : op.Changes) :
    joint.step i = joint.goOn i (next (Disk.act op joint.disk).1) joint.holder
      (Disk.act op joint.disk).2 :=
  Joint.step_of_no_lock h hop.not_locks

end

end Files

namespace Job

open Jobflow.Files

namespace FileStore

variable {ι : Type} (store : FileStore) (lockOf : ι → String) (calls : ι → Operation) (start : Disk)

/-- Calls on one file that begin on a disk, each under the lock of the store it is made through. -/
def throughStores : Joint ι Answer where
  threads i := Filing.holding (lockOf i) (store.body (calls i))
  holder _ := none
  disk := start

/-- Calls through one store are such calls. -/
theorem throughStores_lock :
    store.throughStores (fun _ => lock) calls start = store.together calls start := by
  unfold throughStores together
  congr
  funext i
  exact (store.perform_eq (calls i)).symm

/-- No change reads the file while a change through another store is being written. -/
def Untangled [DecidableEq ι] : Joint ι Answer → List ι → Prop
  | _, [] => True
  | joint, i :: rest =>
    ((calls i).isChange = true → joint.IsReading i →
        ∀ j, lockOf j ≠ lockOf i → ¬ joint.IsWriting j) ∧
      Untangled (joint.step i) rest

/-! ### One call -/

theorem onlyChanges_finish (op : Operation) (found : Except StoreError (List Job)) :
    OnlyChanges (store.finish op found) :=
  store.avoids_finish (fun _ _ _ _ =>
    ⟨not_not.mpr trivial, not_not.mpr trivial, not_not.mpr trivial, not_not.mpr trivial⟩) op found

theorem leaving_body (name : String) (op : Operation) :
    leaving name (store.body op) = .step (.readText store.path) fun answer =>
      leaving name (store.finish op (store.decode answer)) := by
  rw [body_eq]
  rfl

theorem leaving_done_inj {name : String} {answer other : Answer}
    (h : leaving name (.done answer) = leaving name (.done other)) : answer = other := by
  rw [leaving_done, leaving_done] at h
  injection h with _ hnext
  exact Program.done.inj (congrFun hnext ())

/-- An operation that looks only is at its end once it has read. -/
theorem finish_of_view {op : Operation} (h : op.isChange = false)
    (found : Except StoreError (List Job)) :
    ∃ answer, store.finish op found = .done answer := by
  cases found with
  | error e => exact ⟨_, rfl⟩
  | ok jobs =>
    cases hanswer : op.answer jobs with
    | error e => exact ⟨_, finish_of_error hanswer⟩
    | ok reply =>
      refine ⟨.ok reply, ?_⟩
      rw [finish_of_ok hanswer, if_neg (by simp [h])]
      rfl

theorem run_body (op : Operation) (disk : Disk) :
    Disk.run (store.body op) disk =
      Disk.run (store.finish op (store.decode (disk.tree.readText store.path))) disk := by
  rw [body_eq]
  rfl

variable {store lockOf calls start}

theorem inSequence_concat (store : FileStore) (calls : ι → Operation) (start : Disk)
    (order : List ι) (i : ι) :
    store.inSequence calls start (order ++ [i]) =
      ((store.inSequence calls start order).1 ++
          [(Disk.run (store.body (calls i)) (store.inSequence calls start order).2).1],
        (Disk.run (store.body (calls i)) (store.inSequence calls start order).2).2) := by
  have hbody : ∀ disk,
      Disk.run (store.perform (calls i)) disk = Disk.run (store.body (calls i)) disk := by
    intro disk
    rw [perform_eq, Disk.run_holding]
    rfl
  rw [inSequence_append, inSequence_singleton, hbody]

/-! ### All calls -/

/-- How far a call has come, where the changes in `order` have been made. -/
inductive Phase (store : FileStore) (lockOf : ι → String) (calls : ι → Operation) (start : Disk)
    (order : List ι) (joint : Joint ι Answer) (i : ι) : Prop where
  | waiting : joint.threads i = Filing.holding (lockOf i) (store.body (calls i)) → i ∉ order →
      Phase store lockOf calls start order joint i
  | reading : joint.threads i = leaving (lockOf i) (store.body (calls i)) →
      joint.holder (lockOf i) = some i → i ∉ order → Phase store lockOf calls start order joint i
  | writing {op : FileOp} {next : op.Answer → Filing Answer} :
      joint.threads i = leaving (lockOf i) (.step op next) → joint.holder (lockOf i) = some i →
      (calls i).isChange = true → i ∉ order → OnlyChanges (.step op next : Filing Answer) →
      Disk.run (.step op next) joint.disk =
        Disk.run (store.body (calls i)) (store.inSequence calls start order).2 →
      Phase store lockOf calls start order joint i
  | finished {answer : Answer} : joint.threads i = leaving (lockOf i) (.done answer) →
      joint.holder (lockOf i) = some i → ((calls i).isChange = true → i ∈ order) →
      Phase store lockOf calls start order joint i
  | returned {answer : Answer} : joint.threads i = .done answer →
      ((calls i).isChange = true → i ∈ order) → Phase store lockOf calls start order joint i

/-- The program has its answer; it may have to give back its lock. -/
def Decided (lock : String) (p : Filing Answer) (answer : Answer) : Prop :=
  p = leaving lock (.done answer) ∨ p = .done answer

/-- The changes in `order` have been made one after the other, and at most one other is being
written. -/
structure Separate (store : FileStore) (lockOf : ι → String) (calls : ι → Operation) (start : Disk)
    (order : List ι) (joint : Joint ι Answer) : Prop where
  distinct : order.Nodup
  changes : ∀ i ∈ order, (calls i).isChange = true
  phase : ∀ i, Phase store lockOf calls start order joint i
  decided : List.Forall₂ (fun i answer => Decided (lockOf i) (joint.threads i) answer) order
    (store.inSequence calls start order).1
  single : ∀ i j, joint.IsWriting i → joint.IsWriting j → i = j
  idle : (∀ i, ¬ joint.IsWriting i) → joint.disk = (store.inSequence calls start order).2

theorem separate_start (store : FileStore) (lockOf : ι → String) (calls : ι → Operation)
    (start : Disk) :
    Separate store lockOf calls start [] (store.throughStores lockOf calls start) where
  distinct := .nil
  changes := nofun
  phase i := .waiting rfl nofun
  decided := .nil
  single := by
    rintro i j ⟨op, next, hthread, hop⟩
    cases hthread
    cases hop
  idle _ := rfl

section
variable {order : List ι} {joint : Joint ι Answer} {i : ι}

theorem isWriting_of_leaving {op : FileOp} {next : op.Answer → Filing Answer}
    (h : joint.threads i = leaving (lockOf i) (.step op next))
    (honly : OnlyChanges (.step op next : Filing Answer)) : joint.IsWriting i :=
  ⟨op, _, h.trans (leaving_step _ op next), not_not.mp honly.1⟩

theorem not_isWriting_of_step {op : FileOp} {next : op.Answer → Filing Answer}
    (h : joint.threads i = .step op next) (hop : ¬ op.Changes) : ¬ joint.IsWriting i := by
  rintro ⟨op', next', hi, hchanges⟩
  cases h.symm.trans hi
  exact hop hchanges

theorem not_isWriting_of_done {answer : Answer} (h : joint.threads i = .done answer) :
    ¬ joint.IsWriting i := by
  rintro ⟨op, next, hi, -⟩
  cases h.symm.trans hi

/-- The others are where they were as long as the disk of the one that is being written is. -/
theorem Phase.frame {order' : List ι} {joint' : Joint ι Answer}
    (h : Phase store lockOf calls start order joint i)
    (hthread : joint'.threads i = joint.threads i)
    (hheld : joint.holder (lockOf i) = some i → joint'.holder (lockOf i) = some i)
    (hmem : i ∈ order' ↔ i ∈ order)
    (hdisk : joint.IsWriting i → order' = order ∧ joint'.disk = joint.disk) :
    Phase store lockOf calls start order' joint' i := by
  cases h with
  | waiting hi hnot => exact .waiting (hthread.trans hi) (hmem.not.mpr hnot)
  | reading hi hholder hnot => exact .reading (hthread.trans hi) (hheld hholder) (hmem.not.mpr hnot)
  | writing hi hholder hchange hnot honly hrun =>
    obtain ⟨rfl, hsame⟩ := hdisk (isWriting_of_leaving hi honly)
    exact .writing (hthread.trans hi) (hheld hholder) hchange hnot honly (hsame ▸ hrun)
  | finished hi hholder hdone =>
    exact .finished (hthread.trans hi) (hheld hholder) fun hchange => hmem.mpr (hdone hchange)
  | returned hi hdone => exact .returned (hthread.trans hi) fun hchange => hmem.mpr (hdone hchange)

variable [DecidableEq ι]

variable {p : Filing Answer} {holder : String → Option ι} {disk : Disk}

/-- A program goes on, and no change is finished. -/
theorem Separate.goOn (h : Separate store lockOf calls start order joint)
    (hheld : ∀ j ≠ i, joint.holder (lockOf j) = some j → holder (lockOf j) = some j)
    (hphase : Phase store lockOf calls start order (joint.goOn i p holder disk) i)
    (hdecided : ∀ answer, Decided (lockOf i) (joint.threads i) answer → Decided (lockOf i) p answer)
    (hothers : ∀ j ≠ i, joint.IsWriting j →
      disk = joint.disk ∧ ¬ (joint.goOn i p holder disk).IsWriting i)
    (hidle : (∀ j, ¬ (joint.goOn i p holder disk).IsWriting j) →
      disk = (store.inSequence calls start order).2) :
    Separate store lockOf calls start order (joint.goOn i p holder disk) where
  distinct := h.distinct
  changes := h.changes
  phase j := by
    by_cases hj : j = i
    · exact hj ▸ hphase
    · exact (h.phase j).frame (Joint.threads_goOn_of_ne hj) (hheld j hj) Iff.rfl
        fun hwriting => ⟨rfl, (hothers j hj hwriting).1⟩
  decided := by
    refine h.decided.imp fun j answer hanswer => ?_
    by_cases hj : j = i
    · subst hj
      rw [Joint.threads_goOn_self]
      exact hdecided answer hanswer
    · rwa [Joint.threads_goOn_of_ne hj]
  single j k hj hk := by
    by_cases hji : j = i
    · by_cases hki : k = i
      · rw [hji, hki]
      · subst hji
        exact absurd hj (hothers k hki ((Joint.isWriting_goOn_of_ne hki).mp hk)).2
    · by_cases hki : k = i
      · subst hki
        exact absurd hk (hothers j hji ((Joint.isWriting_goOn_of_ne hji).mp hj)).2
      · exact h.single j k ((Joint.isWriting_goOn_of_ne hji).mp hj)
          ((Joint.isWriting_goOn_of_ne hki).mp hk)
  idle := hidle

/-- A program goes on that was not writing, and is not about to. -/
theorem Separate.goOn_quiet (h : Separate store lockOf calls start order joint)
    (hheld : ∀ j ≠ i, joint.holder (lockOf j) = some j → holder (lockOf j) = some j)
    (hphase : Phase store lockOf calls start order (joint.goOn i p holder joint.disk) i)
    (hdecided : ∀ answer, Decided (lockOf i) (joint.threads i) answer → Decided (lockOf i) p answer)
    (hbefore : ¬ joint.IsWriting i) (hafter : ¬ (joint.goOn i p holder joint.disk).IsWriting i) :
    Separate store lockOf calls start order (joint.goOn i p holder joint.disk) := by
  refine h.goOn hheld hphase hdecided (fun j hj _ => ⟨rfl, hafter⟩) fun hnone =>
    h.idle fun j hwriting => ?_
  by_cases hj : j = i
  · exact hbefore (hj ▸ hwriting)
  · exact hnone j ((Joint.isWriting_goOn_of_ne hj).mpr hwriting)

/-- A program goes on that is about to write, and no other is. -/
theorem Separate.goOn_writing (h : Separate store lockOf calls start order joint)
    (hheld : ∀ j ≠ i, joint.holder (lockOf j) = some j → holder (lockOf j) = some j)
    (hphase : Phase store lockOf calls start order (joint.goOn i p holder disk) i)
    (hundecided : ∀ answer, ¬ Decided (lockOf i) (joint.threads i) answer)
    (halone : ∀ j ≠ i, ¬ joint.IsWriting j) (hwriting : (joint.goOn i p holder disk).IsWriting i) :
    Separate store lockOf calls start order (joint.goOn i p holder disk) :=
  h.goOn hheld hphase (fun answer hanswer => absurd hanswer (hundecided answer))
    (fun j hj hother => absurd hother (halone j hj)) fun hnone => absurd hwriting (hnone i)

/-- A change is finished. -/
theorem Separate.finish (h : Separate store lockOf calls start order joint) {answer : Answer}
    (hheld : ∀ j ≠ i, joint.holder (lockOf j) = some j → holder (lockOf j) = some j)
    (hundecided : ∀ answer, ¬ Decided (lockOf i) (joint.threads i) answer)
    (hi : i ∉ order) (hchange : (calls i).isChange = true) (hholder : holder (lockOf i) = some i)
    (halone : ∀ j ≠ i, ¬ joint.IsWriting j)
    (hrun : Disk.run (store.body (calls i)) (store.inSequence calls start order).2 =
      (answer, disk)) :
    Separate store lockOf calls start (order ++ [i])
      (joint.goOn i (leaving (lockOf i) (.done answer)) holder disk) := by
  have hlast := inSequence_concat store calls start order i
  rw [hrun] at hlast
  have hmem : ∀ j ≠ i, j ∈ order ++ [i] ↔ j ∈ order := fun j hj => by simp [hj]
  refine ⟨?_, ?_, ?_, ?_, ?_, ?_⟩
  · simpa [List.nodup_append] using ⟨h.distinct, fun j hj => (hi <| · ▸ hj)⟩
  · intro j hj
    rcases List.mem_append.mp hj with hj | hj
    · exact h.changes j hj
    · rw [List.mem_singleton.mp hj]
      exact hchange
  · intro j
    by_cases hj : j = i
    · subst hj
      exact .finished Joint.threads_goOn_self hholder fun _ => by simp
    · exact (h.phase j).frame (Joint.threads_goOn_of_ne hj) (hheld j hj) (hmem j hj)
        fun hwriting => absurd hwriting (halone j hj)
  · rw [hlast]
    refine List.rel_append (h.decided.imp fun j earlier hearlier => ?_)
      (.cons (.inl Joint.threads_goOn_self) .nil)
    have hj : j ≠ i := by
      rintro rfl
      exact hundecided earlier hearlier
    rwa [Joint.threads_goOn_of_ne hj]
  · intro j k hj hk
    have hself : ∀ l, (joint.goOn i (leaving (lockOf i) (.done answer)) holder disk).IsWriting l →
        False := by
      intro l hl
      by_cases hli : l = i
      · subst hli
        exact not_isWriting_of_step Joint.threads_goOn_self id hl
      · exact halone l hli ((Joint.isWriting_goOn_of_ne hli).mp hl)
    exact (hself j hj).elim
  · intro _
    rw [hlast]
    rfl

end

/-! ### One step -/

section
variable {order : List ι} {joint : Joint ι Answer} {i : ι}

theorem not_decided_of_step {op : FileOp} {next : op.Answer → Filing Answer}
    (h : joint.threads i = .step op next) (hop : ¬ op.Locks) (lock : String) (answer : Answer) :
    ¬ Decided lock (joint.threads i) answer := by
  rintro (hleaving | hdone)
  · cases h.symm.trans (hleaving.trans (leaving_done lock answer))
    exact hop trivial
  · cases h.symm.trans hdone

/-- Nobody else writes when a change reads. -/
theorem Separate.alone (h : Separate store lockOf calls start order joint)
    (hholder : joint.holder (lockOf i) = some i)
    (hapart : ∀ j, lockOf j ≠ lockOf i → ¬ joint.IsWriting j) : ∀ j ≠ i, ¬ joint.IsWriting j := by
  intro j hj hwriting
  refine hapart j (fun hlock => ?_) hwriting
  cases h.phase j with
  | writing hthread hheld _ _ _ _ =>
    rw [hlock, hholder] at hheld
    exact hj (Option.some.inj hheld).symm
  | waiting hthread _ => exact not_isWriting_of_step (hthread.trans (holding_eq _ _)) id hwriting
  | reading hthread _ _ =>
    exact not_isWriting_of_step (hthread.trans (store.leaving_body _ _)) id hwriting
  | finished hthread _ _ =>
    exact not_isWriting_of_step (hthread.trans (leaving_done _ _)) id hwriting
  | returned hthread _ => exact not_isWriting_of_done hthread hwriting

/-- When all calls have returned, the changes were made one after the other. -/
theorem Separate.returned (h : Separate store lockOf calls start order joint)
    (hall : ∀ i, ∃ answer, joint.threads i = .done answer) :
    (∀ i, i ∈ order ↔ (calls i).isChange = true) ∧
      order.map joint.threads = (store.inSequence calls start order).1.map .done ∧
      joint.disk = (store.inSequence calls start order).2 := by
  refine ⟨fun i => ⟨h.changes i, fun hchange => ?_⟩, ?_, ?_⟩
  · obtain ⟨answer, hdone⟩ := hall i
    cases h.phase i with
    | waiting hi _ => cases hdone.symm.trans (hi.trans (holding_eq _ _))
    | reading hi _ _ => cases hdone.symm.trans (hi.trans (store.leaving_body _ _))
    | writing hi _ _ _ _ _ => cases hdone.symm.trans (hi.trans (leaving_step _ _ _))
    | finished hi _ _ => cases hdone.symm.trans (hi.trans (leaving_done _ _))
    | returned _ hmem => exact hmem hchange
  · rw [← List.forall₂_eq_eq_eq, List.forall₂_map_left_iff, List.forall₂_map_right_iff]
    refine h.decided.imp fun i answer hanswer => hanswer.resolve_left fun hleaving => ?_
    obtain ⟨other, hdone⟩ := hall i
    cases hdone.symm.trans (hleaving.trans (leaving_done _ _))
  · exact h.idle fun i => not_isWriting_of_done (hall i).choose_spec

variable [DecidableEq ι]

/-- A program that waits for its lock takes it when it is free. -/
theorem Separate.acquire (h : Separate store lockOf calls start order joint)
    (hi : joint.threads i = Filing.holding (lockOf i) (store.body (calls i))) (hnot : i ∉ order) :
    Separate store lockOf calls start order (joint.step i) := by
  rw [holding_eq] at hi
  cases hfree : joint.holder (lockOf i) with
  | some j => rwa [Joint.step_of_blocked hi (by simp [Joint.isBlocked, hfree])]
  | none =>
    rw [Joint.step_eq_goOn hi (by simp [Joint.isBlocked, hfree])]
    refine h.goOn_quiet ?_ (.reading Joint.threads_goOn_self (Function.update_self _ _ _) hnot) ?_
      (not_isWriting_of_step hi id) ?_
    · intro j hj hheld
      have hlock : lockOf j ≠ lockOf i := by
        intro heq
        rw [heq, hfree] at hheld
        cases hheld
      exact (Function.update_of_ne hlock _ _).trans hheld
    · rintro answer (hleaving | hdone)
      · cases hi.symm.trans (hleaving.trans (leaving_done (lockOf i) answer))
      · cases hi.symm.trans hdone
    · exact not_isWriting_of_step (Joint.threads_goOn_self.trans (store.leaving_body _ _)) id

/-- A program that has its answer gives back its lock. -/
theorem Separate.release (h : Separate store lockOf calls start order joint) {answer : Answer}
    (hi : joint.threads i = leaving (lockOf i) (.done answer))
    (hholder : joint.holder (lockOf i) = some i)
    (hdone : (calls i).isChange = true → i ∈ order) :
    Separate store lockOf calls start order (joint.step i) := by
  rw [Joint.step_eq_goOn (hi.trans (leaving_done _ _)) rfl]
  refine h.goOn_quiet ?_ (.returned Joint.threads_goOn_self hdone) ?_
    (not_isWriting_of_step (hi.trans (leaving_done _ _)) id)
    (not_isWriting_of_done Joint.threads_goOn_self)
  · intro j hj hheld
    have hlock : lockOf j ≠ lockOf i := by
      intro heq
      rw [heq, hholder] at hheld
      exact hj (Option.some.inj hheld).symm
    exact (Function.update_of_ne hlock _ _).trans hheld
  · rintro other (hleaving | hreturned)
    · obtain rfl := leaving_done_inj (hi.symm.trans hleaving)
      exact .inr rfl
    · cases hi.symm.trans hreturned

/-- A change goes on with what remains of it, or is finished. -/
theorem Separate.proceed (h : Separate store lockOf calls start order joint) {rest : Filing Answer}
    {disk : Disk} (hundecided : ∀ answer, ¬ Decided (lockOf i) (joint.threads i) answer)
    (hholder : joint.holder (lockOf i) = some i) (hchange : (calls i).isChange = true)
    (hnot : i ∉ order)
    (halone : ∀ j ≠ i, ¬ joint.IsWriting j) (honly : OnlyChanges rest)
    (hrun : Disk.run rest disk =
      Disk.run (store.body (calls i)) (store.inSequence calls start order).2) :
    ∃ order', Separate store lockOf calls start order'
      (joint.goOn i (leaving (lockOf i) rest) joint.holder disk) := by
  cases rest with
  | done answer =>
    exact ⟨_, h.finish (fun _ _ => id) hundecided hnot hchange hholder halone hrun.symm⟩
  | step op next =>
    refine ⟨order, h.goOn_writing (fun _ _ => id) ?_ hundecided halone ?_⟩
    · exact .writing Joint.threads_goOn_self hholder hchange hnot honly hrun
    · exact isWriting_of_leaving Joint.threads_goOn_self honly

/-- A program that has its lock reads the file. -/
theorem Separate.read (h : Separate store lockOf calls start order joint)
    (hi : joint.threads i = leaving (lockOf i) (store.body (calls i)))
    (hholder : joint.holder (lockOf i) = some i) (hnot : i ∉ order)
    (hapart : (calls i).isChange = true → ∀ j, lockOf j ≠ lockOf i → ¬ joint.IsWriting j) :
    ∃ order', Separate store lockOf calls start order' (joint.step i) := by
  have hreading := hi.trans (store.leaving_body _ _)
  have hquiet : ¬ joint.IsWriting i := not_isWriting_of_step hreading id
  rw [Joint.step_eq_goOn hreading rfl]
  cases hchange : (calls i).isChange with
  | false =>
    obtain ⟨answer, hanswer⟩ :=
      store.finish_of_view hchange (store.decode (joint.disk.tree.readText store.path))
    have hstep : joint.goOn i (leaving (lockOf i) (store.finish (calls i)
        (store.decode (joint.disk.tree.readText store.path)))) joint.holder joint.disk =
          joint.goOn i (leaving (lockOf i) (.done answer)) joint.holder joint.disk := by
      rw [hanswer]
    refine ⟨order, hstep ▸ h.goOn_quiet (fun _ _ => id) ?_ ?_ hquiet ?_⟩
    · exact .finished Joint.threads_goOn_self hholder (by simp [hchange])
    · exact fun other hother => absurd hother (not_decided_of_step hreading id _ other)
    · exact not_isWriting_of_step (Joint.threads_goOn_self.trans (leaving_done _ _)) id
  | true =>
    -- nobody is writing, so what is read is what the finished changes have left
    have halone := h.alone hholder (hapart hchange)
    have hdisk : joint.disk = (store.inSequence calls start order).2 := by
      refine h.idle fun j => ?_
      by_cases hj : j = i
      · exact hj ▸ hquiet
      · exact halone j hj
    refine h.proceed (not_decided_of_step hreading id _) hholder hchange hnot halone
      (store.onlyChanges_finish _ _) ?_
    rw [← hdisk, run_body]
    rfl

/-- A change that has read the file writes it. -/
theorem Separate.write (h : Separate store lockOf calls start order joint) {op : FileOp}
    {next : op.Answer → Filing Answer} (hi : joint.threads i = leaving (lockOf i) (.step op next))
    (hholder : joint.holder (lockOf i) = some i) (hchange : (calls i).isChange = true)
    (hnot : i ∉ order)
    (honly : OnlyChanges (.step op next : Filing Answer))
    (hrun : Disk.run (.step op next) joint.disk =
      Disk.run (store.body (calls i)) (store.inSequence calls start order).2) :
    ∃ order', Separate store lockOf calls start order' (joint.step i) := by
  have hop : op.Changes := not_not.mp honly.1
  have hwriting := hi.trans (leaving_step _ op next)
  rw [Joint.step_of_changes hwriting hop]
  refine h.proceed (not_decided_of_step hwriting ?_ _) hholder hchange hnot ?_ (honly.2 _) hrun
  · cases op <;> first | exact id | cases hop
  · exact fun j hj hother => hj (h.single j i hother (isWriting_of_leaving hi honly))

theorem Separate.step (h : Separate store lockOf calls start order joint) (i : ι)
    (hapart : (calls i).isChange = true → joint.IsReading i →
      ∀ j, lockOf j ≠ lockOf i → ¬ joint.IsWriting j) :
    ∃ order', Separate store lockOf calls start order' (joint.step i) := by
  cases h.phase i with
  | waiting hi hnot => exact ⟨order, h.acquire hi hnot⟩
  | reading hi hholder hnot =>
    exact h.read hi hholder hnot fun hchange =>
      hapart hchange ⟨_, _, hi.trans (store.leaving_body _ _)⟩
  | writing hi hholder hchange hnot honly hrun => exact h.write hi hholder hchange hnot honly hrun
  | finished hi hholder hdone => exact ⟨order, h.release hi hholder hdone⟩
  | returned hi _ => exact ⟨order, by rwa [Joint.step_of_done hi]⟩

theorem Separate.play (h : Separate store lockOf calls start order joint) {schedule : List ι}
    (huntangled : Untangled lockOf calls joint schedule) :
    ∃ order', Separate store lockOf calls start order' (joint.play schedule) := by
  induction schedule generalizing order joint with
  | nil => exact ⟨order, h⟩
  | cons i rest ih =>
    obtain ⟨order', horder'⟩ := h.step i huntangled.1
    exact ih horder' huntangled.2

end

/-! ### What is in the file -/

section
variable {disk : Disk} {id : Uuid} {job : Job} {op : Operation}

/-- An offer that is inserted is in the file. -/
theorem finds_of_insert (hjob : job.Storable) {reply : Reply}
    (hanswer : (Disk.run (store.perform (.insert job)) disk).1 = .ok reply) :
    store.Finds (Disk.run (store.perform (.insert job)) disk).2 job.id job.settled := by
  have hop : (Operation.insert job).Storable := hjob
  obtain ⟨jobs, hcontents, -, hafter⟩ := contents_of_change hop rfl hanswer
  have hfree := answer_of_ok hcontents hanswer
  rw [Operation.answer_insert] at hfree
  split at hfree
  · cases hfree
  · next hnone =>
    have hnone : find? jobs job.id = none := by simpa using hnone
    refine ⟨_, hafter, ?_⟩
    rw [find?_map_settled, Operation.after_insert, if_neg (by simp [hnone])]
    simp only [find?] at hnone
    simp [find?, List.find?_append, hnone]

/-- No operation but a commit takes anything from an offer. -/
theorem exists_continues_of_perform (hop : op.Storable) (hcommit : ∀ copy, op ≠ .commit copy)
    (hfinds : store.Finds disk id job) :
    ∃ now, store.Finds (Disk.run (store.perform op) disk).2 id now ∧ job.Continues now := by
  refine exists_continues hop hfinds (.refl job) fun htarget reply hanswer => ?_
  cases op with
  | insert new =>
    obtain rfl : new.id = id := Option.some.inj htarget
    obtain ⟨jobs, hcontents, hfound⟩ := hfinds
    have hfree := answer_of_ok hcontents hanswer
    rw [Operation.answer_insert, hfound] at hfree
    cases hfree
  | commit copy => exact absurd rfl (hcommit copy)
  | record other attempt =>
    obtain rfl : other = id := Option.some.inj htarget
    exact ⟨_, finds_of_record hop hfinds hanswer, continues_recordAttempt job attempt.settled⟩
  | get other => cases htarget
  | pending limit => cases htarget
  | list => cases htarget

theorem exists_continues_of_performAll {ops : List Operation} (hops : ∀ op ∈ ops, op.Storable)
    (hcommits : ∀ op ∈ ops, ∀ copy, op ≠ .commit copy) (hfinds : store.Finds disk id job) :
    ∃ now, store.Finds (Disk.run (store.performAll ops) disk).2 id now ∧ job.Continues now := by
  induction ops generalizing disk job with
  | nil => exact ⟨job, hfinds, .refl job⟩
  | cons op ops ih =>
    rw [List.forall_mem_cons] at hops hcommits
    obtain ⟨next, hnext, hcontinues⟩ := exists_continues_of_perform hops.1 hcommits.1 hfinds
    obtain ⟨now, hnow, hlater⟩ := ih hops.2 hcommits.2 hnext
    rw [← List.singleton_append, run_performAll_append, run_performAll_singleton]
    exact ⟨now, hnow, hcontinues.trans hlater⟩

end

/-- The offers that were inserted, and the attempts that were recorded, are in the file. -/
structure InFile (store : FileStore) (calls : ι → Operation) (joint : Joint ι Answer) : Prop where
  inserted : ∀ i job reply, calls i = .insert job → joint.threads i = .done (.ok reply) →
    ∃ now, store.Finds joint.disk job.id now ∧ job.settled.Continues now
  recorded : ∀ i id attempt reply, calls i = .record id attempt →
    joint.threads i = .done (.ok reply) →
    ∃ now, store.Finds joint.disk id now ∧ attempt.settled ∈ now.attempts

section
variable {order : List ι} {joint : Joint ι Answer}

/-- What a change of a sequence has put in the file stays there. -/
theorem exists_continues_of_inSequence (hcalls : ∀ i, (calls i).Storable)
    (hcommits : ∀ i copy, calls i ≠ .commit copy)
    (hanswers : order.map joint.threads = (store.inSequence calls start order).1.map .done)
    (hdisk : joint.disk = (store.inSequence calls start order).2) {i : ι} {reply : Reply}
    (hi : i ∈ order)
    (hdone : joint.threads i = .done (.ok reply)) {id : Uuid} {P : Job → Prop}
    (hmade : ∀ disk, (Disk.run (store.perform (calls i)) disk).1 = .ok reply →
      ∃ job, store.Finds (Disk.run (store.perform (calls i)) disk).2 id job ∧ P job) :
    ∃ job now, P job ∧ store.Finds joint.disk id now ∧ job.Continues now := by
  obtain ⟨earlier, later, rfl⟩ := List.append_of_mem hi
  let before := (store.inSequence calls start earlier).2
  rw [← List.singleton_append, inSequence_append, inSequence_append, inSequence_singleton]
    at hanswers hdisk
  have hanswer : joint.threads i = .done (Disk.run (store.perform (calls i)) before).1 := by
    rw [List.map_append, List.map_append, List.map_append] at hanswers
    have hlater := (List.append_inj hanswers (by simp [length_inSequence])).2
    exact (List.cons.inj hlater).1
  obtain ⟨job, hfinds, hjob⟩ := hmade before (Program.done.inj (hanswer.symm.trans hdone))
  have hlater : ∀ op ∈ later.map calls, op.Storable ∧ ∀ copy, op ≠ .commit copy := by
    intro op hop
    obtain ⟨j, -, rfl⟩ := List.mem_map.mp hop
    exact ⟨hcalls j, hcommits j⟩
  obtain ⟨now, hnow, hcontinues⟩ := exists_continues_of_performAll (fun op hop => (hlater op hop).1)
    (fun op hop => (hlater op hop).2) hfinds
  exact ⟨job, now, hjob, hdisk ▸ hnow, hcontinues⟩

theorem inFile_of_inSequence (hcalls : ∀ i, (calls i).Storable)
    (hcommits : ∀ i copy, calls i ≠ .commit copy)
    (hmem : ∀ i, i ∈ order ↔ (calls i).isChange = true)
    (hanswers : order.map joint.threads = (store.inSequence calls start order).1.map .done)
    (hdisk : joint.disk = (store.inSequence calls start order).2) : InFile store calls joint where
  inserted i job reply hcall hdone := by
    have hjob : job.Storable := by
      have hstorable := hcalls i
      rwa [hcall] at hstorable
    have hi : i ∈ order := (hmem i).mpr (by rw [hcall]; rfl)
    obtain ⟨_, now, rfl, hnow, hcontinues⟩ :=
      exists_continues_of_inSequence hcalls hcommits hanswers hdisk hi hdone
        fun disk hanswer => by
          rw [hcall] at hanswer ⊢
          exact ⟨job.settled, finds_of_insert hjob hanswer, rfl⟩
    exact ⟨now, hnow, hcontinues⟩
  recorded i id attempt reply hcall hdone := by
    have hrange : attempt.timestamp.InRange := by
      have hstorable := hcalls i
      rwa [hcall] at hstorable
    have hi : i ∈ order := (hmem i).mpr (by rw [hcall]; rfl)
    have hmade : ∀ disk, (Disk.run (store.perform (calls i)) disk).1 = .ok reply →
        ∃ job, store.Finds (Disk.run (store.perform (calls i)) disk).2 id job ∧
          attempt.settled ∈ job.attempts := by
      intro disk hanswer
      rw [hcall] at hanswer ⊢
      obtain ⟨old, hold⟩ := exists_finds_of_record hanswer
      exact ⟨_, finds_of_record hrange hold hanswer, by simp [Job.recordAttempt]⟩
    obtain ⟨job, now, hattempt, hnow, hcontinues⟩ :=
      exists_continues_of_inSequence hcalls hcommits hanswers hdisk hi hdone hmade
    exact ⟨now, hnow, hcontinues.attempts.subset hattempt⟩

end

section
variable [DecidableEq ι] {joint : Joint ι Answer} {i : ι}

/-- The turns of one call tangle nothing while no other call is being written. -/
theorem untangled_replicate (halone : ∀ j ≠ i, ¬ joint.IsWriting j) (n : Nat) {rest : List ι}
    (hrest : Untangled lockOf calls (joint.play (List.replicate n i)) rest) :
    Untangled lockOf calls joint (List.replicate n i ++ rest) := by
  induction n generalizing joint with
  | zero => exact hrest
  | succ n ih =>
    refine ⟨fun _ _ j hlock => halone j fun hj => hlock (congrArg lockOf hj),
      ih (fun j hj => ?_) hrest⟩
    unfold Joint.IsWriting
    rw [Joint.threads_step_of_ne hj]
    exact halone j hj

end

/-- Whatever the turns are in which calls through several stores on one file take their steps, as
long as no change reads the file between the reading and the renaming of a change through another
store: when all have returned, the changes have the answers and the effect of one after the other,
and unless offers are committed, every offer that was inserted and every attempt that was recorded
is in the file. -/
theorem untangled_changes_are_kept [DecidableEq ι] (store : FileStore) (lockOf : ι → String)
    {calls : ι → Operation} (hcalls : ∀ i, (calls i).Storable) (start : Disk) {schedule : List ι}
    (huntangled : Untangled lockOf calls (store.throughStores lockOf calls start) schedule)
    (hidle : ∀ i, ∃ answer,
      ((store.throughStores lockOf calls start).play schedule).threads i = .done answer) :
    let after := (store.throughStores lockOf calls start).play schedule
    (∃ order : List ι, order.Nodup ∧ (∀ i, i ∈ order ↔ (calls i).isChange = true) ∧
      order.map after.threads = (store.inSequence calls start order).1.map .done ∧
      after.disk = (store.inSequence calls start order).2) ∧
    ((∀ i copy, calls i ≠ .commit copy) → InFile store calls after) := by
  intro after
  obtain ⟨order, hseparate⟩ := (separate_start store lockOf calls start).play huntangled
  obtain ⟨hmem, hanswers, hdisk⟩ := hseparate.returned hidle
  exact ⟨⟨order, hseparate.distinct, hmem, hanswers, hdisk⟩,
    fun hcommits => inFile_of_inSequence hcalls hcommits hmem hanswers hdisk⟩

/-! ### A recording and an insertion -/

/-- Another offer. -/
def otherOffer : Job := { firstOffer with id := ⟨2⟩ }

/-- One process records an attempt while another inserts an offer. -/
def recordAndInsert : Bool → Operation
  | false => .record firstOffer.id success
  | true => .insert otherOffer

def processLock : Bool → String
  | false => "recording"
  | true => "inserting"

def twoProcesses : Joint Bool Answer :=
  newStore.throughStores processLock recordAndInsert (diskWith [firstOffer])

theorem contents_firstOffer : newStore.contents (diskWith [firstOffer]) = .ok [firstOffer] :=
  contents_diskWith (by simpa using storable_samples (.inl rfl))

theorem storable_recordAndInsert (i : Bool) : (recordAndInsert i).Storable := by
  cases i with
  | false => exact ⟨by decide, by decide⟩
  | true => exact ⟨by unfold Uuid.Fits; decide, storable_firstOffer.createdAt, nofun⟩

/-- A process takes its lock and reads the file. -/
theorem play_reading [DecidableEq ι] {joint : Joint ι Answer} {i : ι} {name : String}
    {op : Operation}
    (h : joint.threads i = Filing.holding name (store.body op)) (hfree : joint.holder name = none) :
    joint.play [i, i] = joint.goOn i (leaving name (store.finish op (store.contents joint.disk)))
      (Function.update joint.holder name (some i)) joint.disk := by
  have hfirst := Joint.step_eq_goOn (h.trans (holding_eq _ _)) (by simp [Joint.isBlocked, hfree])
  have hreading := (congrFun (congrArg Joint.threads hfirst) i).trans
    (Joint.threads_goOn_self.trans (store.leaving_body name op))
  have hsecond := Joint.step_eq_goOn hreading rfl
  rw [hfirst] at hsecond
  change (joint.step i).step i = _
  rw [hfirst, hsecond]
  exact congrArg (Joint.mk · _ _) (Function.update_idem _ _ _)

/-- The recording has read the file. -/
theorem play_recording_reads :
    twoProcesses.play [false, false] =
      twoProcesses.goOn false
        (leaving "recording" (newStore.finish (recordAndInsert false) (.ok [firstOffer])))
        (Function.update (fun _ => none) "recording" (some false)) (diskWith [firstOffer]) := by
  have hrecord : twoProcesses.threads false =
      Filing.holding "recording" (newStore.body (recordAndInsert false)) := rfl
  have hread : newStore.contents twoProcesses.disk = .ok [firstOffer] := contents_firstOffer
  rw [play_reading hrecord rfl, hread]
  rfl

/-- Both processes take their locks and read the file. -/
def readingTurns : List Bool := [false, false, true, true]

/-- They write the file one after the other. -/
def writingTurns : List Bool := [false, false, false, false, true, true, true, true]

/-- Both processes have read the same file. -/
def bothHaveRead : Joint Bool Answer where
  threads i := leaving (processLock i) (newStore.finish (recordAndInsert i) (.ok [firstOffer]))
  holder := Function.update (Function.update (fun _ => none) "recording" (some false)) "inserting"
    (some true)
  disk := diskWith [firstOffer]

theorem play_readingTurns : twoProcesses.play readingTurns = bothHaveRead := by
  have hinsert : (twoProcesses.play [false, false]).threads true =
      Filing.holding "inserting" (newStore.body (recordAndInsert true)) := by
    rw [play_recording_reads]
    rfl
  have hsecond := play_reading hinsert (by rw [play_recording_reads]; rfl)
  rw [play_recording_reads] at hsecond
  have hplay : twoProcesses.play readingTurns =
      (twoProcesses.play [false, false]).play [true, true] := rfl
  rw [hplay, play_recording_reads, hsecond]
  simp only [Joint.goOn, contents_firstOffer]
  refine congrArg (Joint.mk · _ _) (funext fun i => ?_)
  cases i <;> rfl

theorem returned_writingTurns :
    (bothHaveRead.play writingTurns).threads false = .done (.ok (.recorded .success)) ∧
      (bothHaveRead.play writingTurns).threads true = .done (.ok .done) :=
  ⟨rfl, rfl⟩

theorem disk_writingTurns :
    (bothHaveRead.play writingTurns).disk = diskWith [firstOffer, otherOffer] := by
  have hwritten : (bothHaveRead.play writingTurns).disk =
      ⟨[(["jobs.json"],
        .file (ByteArray.empty ++ (fileText [firstOffer, otherOffer]).toUTF8) false)], 0⟩ := rfl
  rw [hwritten, ByteArray.empty_append]
  rfl

/-- Both processes report success, and the attempt that one of them recorded is gone: the other had
read the file before, and puts it back with its own change alone. -/
theorem overlapping_change_is_lost :
    let after := twoProcesses.play (readingTurns ++ writingTurns)
    after.threads false = .done (.ok (.recorded .success)) ∧
      after.threads true = .done (.ok .done) ∧
      newStore.contents after.disk = .ok [firstOffer, otherOffer] ∧
      ¬ InFile newStore recordAndInsert after := by
  have hsamples : ∀ job ∈ [firstOffer, otherOffer], job.Storable ∧ job.settled = job := by
    have hoffer := storable_samples (.inl rfl)
    simpa using ⟨hoffer, storable_recordAndInsert true, rfl⟩
  have hcontents : newStore.contents (diskWith [firstOffer, otherOffer]) =
      .ok [firstOffer, otherOffer] :=
    contents_diskWith hsamples
  have hplay : twoProcesses.play (readingTurns ++ writingTurns) =
      bothHaveRead.play writingTurns := by
    rw [Joint.play_append, play_readingTurns]
  dsimp only
  rw [hplay]
  obtain ⟨hrecorded, hinserted⟩ := returned_writingTurns
  refine ⟨hrecorded, hinserted, by rw [disk_writingTurns, hcontents], fun hinFile => ?_⟩
  obtain ⟨now, ⟨jobs, hjobs, hnow⟩, hattempt⟩ :=
    hinFile.recorded false firstOffer.id success _ rfl hrecorded
  rw [disk_writingTurns, hcontents] at hjobs
  obtain rfl := Except.ok.inj hjobs
  obtain rfl : firstOffer = now := by simpa [find?] using hnow
  simp [firstOffer, Job.create] at hattempt

/-- The recording is made before the insertion. -/
def inTurn : List Bool := List.replicate 6 false ++ List.replicate 6 true

theorem play_recording :
    let recorded := twoProcesses.play (List.replicate 6 false)
    recorded.threads false = .done (.ok (.recorded .success)) ∧
      recorded.threads true = Filing.holding "inserting" (newStore.body (.insert otherOffer)) ∧
      recorded.holder "inserting" = none ∧
      recorded.disk = diskWith [firstOffer.recordAttempt success] := by
  have hplay : twoProcesses.play (List.replicate 6 false) =
      (twoProcesses.play [false, false]).play (List.replicate 4 false) :=
    Joint.play_append twoProcesses [false, false] (List.replicate 4 false)
  dsimp only
  rw [hplay, play_recording_reads]
  refine ⟨rfl, rfl, rfl, ?_⟩
  exact congrArg (fun content => (⟨[(["jobs.json"], .file content false)], 0⟩ : Disk))
    (ByteArray.empty_append)

/-- The insertion comes to its end after any other program. -/
theorem play_insertion {joint : Joint Bool Answer}
    (h : joint.threads true = Filing.holding "inserting" (newStore.body (.insert otherOffer)))
    (hfree : joint.holder "inserting" = none)
    (hdisk : joint.disk = diskWith [firstOffer.recordAttempt success]) :
    (joint.play (List.replicate 6 true)).threads =
      Function.update joint.threads true (.done (.ok .done)) := by
  have hread : newStore.contents (diskWith [firstOffer.recordAttempt success]) =
      .ok [firstOffer.recordAttempt success] :=
    contents_diskWith (by simpa using storable_samples (.inr rfl))
  have hplay : joint.play (List.replicate 6 true) =
      (joint.play [true, true]).play (List.replicate 4 true) :=
    Joint.play_append joint [true, true] (List.replicate 4 true)
  rw [hplay, play_reading h hfree, hdisk, hread]
  funext i
  cases i <;> rfl

theorem untangled_changes_are_kept_in_turn :
    (∀ i, (recordAndInsert i).Storable) ∧
      Untangled processLock recordAndInsert twoProcesses inTurn ∧
      (∀ i, ∃ answer, (twoProcesses.play inTurn).threads i = .done answer) ∧
      InFile newStore recordAndInsert (twoProcesses.play inTurn) := by
  obtain ⟨hrecorded, hwaiting, hfree, hdisk⟩ := play_recording
  have huntangled : Untangled processLock recordAndInsert twoProcesses inTurn := by
    refine untangled_replicate (fun j hj => ?_) 6 ?_
    · obtain rfl : j = true := by simpa using hj
      have hinsert : twoProcesses.threads true =
          Filing.holding "inserting" (newStore.body (recordAndInsert true)) := rfl
      exact not_isWriting_of_step (hinsert.trans (holding_eq _ _)) id
    · rw [← List.append_nil (List.replicate 6 true)]
      refine untangled_replicate (fun j hj => ?_) 6 trivial
      obtain rfl : j = false := by simpa using hj
      exact not_isWriting_of_done hrecorded
  have hidle : ∀ i, ∃ answer, (twoProcesses.play inTurn).threads i = .done answer := by
    rw [inTurn, Joint.play_append, play_insertion hwaiting hfree hdisk]
    intro i
    cases i with
    | false => exact ⟨_, (Function.update_of_ne (by decide) _ _).trans hrecorded⟩
    | true => exact ⟨_, Function.update_self _ _ _⟩
  have hcommits : ∀ i copy, recordAndInsert i ≠ .commit copy := by
    rintro (_ | _) copy <;> nofun
  have hkept := untangled_changes_are_kept newStore processLock storable_recordAndInsert
    (diskWith [firstOffer]) huntangled
  rw [show newStore.throughStores processLock recordAndInsert (diskWith [firstOffer]) =
    twoProcesses from rfl]
    at hkept
  exact ⟨storable_recordAndInsert, huntangled, hidle, (hkept hidle).2 hcommits⟩

end FileStore

end Job

end Jobflow
