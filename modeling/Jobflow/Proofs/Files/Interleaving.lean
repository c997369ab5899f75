import Jobflow.Proofs.Files.Replacing
import Mathlib.Data.List.Nodup
import Mathlib.Logic.Function.Basic

/-!
Programs that share a disk and its locks. At each step one of them does its next operation; one
that waits for a lock stays where it is. Programs that do all their work while they hold one
and the same lock have the effect of running one after the other, in the order in which they
come to their end.
-/

namespace Jobflow

namespace Program

variable {I : Interface} {α β : Type} {bad : I.Op → Prop}

/-- No operation of the program is one of the bad ones, whatever the answers are. -/
def Avoids (bad : I.Op → Prop) : Program I α → Prop
  | .done _ => True
  | .step op next => ¬ bad op ∧ ∀ answer, Avoids bad (next answer)

theorem Avoids.bind {p : Program I α} {f : α → Program I β} (hp : p.Avoids bad)
    (hf : ∀ a, (f a).Avoids bad) : (p >>= f).Avoids bad := by
  induction p with
  | done a => exact hf a
  | step op next ih => exact ⟨hp.1, fun answer => ih answer (hp.2 answer)⟩

end Program

namespace Files

/-- Takes or gives back a lock. -/
def FileOp.Locks : FileOp → Prop
  | .acquire _ | .release _ => True
  | _ => False

/-- Reads a file. -/
def FileOp.Reads : FileOp → Prop
  | .readText _ => True
  | _ => False

variable {ι α : Type}

/-- Several programs on one disk: what remains of each, who holds each lock, and the disk. -/
structure Joint (ι α : Type) where
  threads : ι → Filing α
  holder : String → Option ι
  disk : Disk

namespace Joint

/-- Whether the operation has to wait. -/
def isBlocked (joint : Joint ι α) : FileOp → Bool
  | .acquire lock => (joint.holder lock).isSome
  | _ => false

variable [DecidableEq ι]

/-- Who holds the locks after an operation of a program. -/
def holderAfter (joint : Joint ι α) (i : ι) : FileOp → String → Option ι
  | .acquire lock => Function.update joint.holder lock (some i)
  | .release lock => Function.update joint.holder lock none
  | _ => joint.holder

/-- One program does its next operation, if it has one and need not wait. -/
def step (joint : Joint ι α) (i : ι) : Joint ι α :=
  match joint.threads i with
  | .done _ => joint
  | .step op next =>
    if joint.isBlocked op then joint
    else
      { threads := Function.update joint.threads i (next (Disk.act op joint.disk).1)
        holder := joint.holderAfter i op
        disk := (Disk.act op joint.disk).2 }

/-- The programs take their turns as the schedule says. -/
def play (joint : Joint ι α) (schedule : List ι) : Joint ι α := schedule.foldl step joint

def isDone (joint : Joint ι α) (i : ι) : Bool :=
  match joint.threads i with
  | .done _ => true
  | .step .. => false

/-- The programs that come to their end when one of them takes its turn: that one, or none. -/
def completed (joint : Joint ι α) (i : ι) : List ι :=
  if !joint.isDone i && (joint.step i).isDone i then [i] else []

/-- The programs that come to their end, in the order in which they do. -/
def completions (joint : Joint ι α) : List ι → List ι
  | [] => []
  | i :: rest => joint.completed i ++ (joint.step i).completions rest

variable {joint : Joint ι α} {i : ι} {op : FileOp} {next : op.Answer → Filing α}

theorem step_of_done {a : α} (h : joint.threads i = .done a) : joint.step i = joint := by
  rw [step, h]

theorem step_of_blocked (h : joint.threads i = .step op next)
    (hblocked : joint.isBlocked op = true) :
    joint.step i = joint := by
  rw [step, h]
  exact if_pos hblocked

theorem step_of_free (h : joint.threads i = .step op next) (hfree : joint.isBlocked op = false) :
    joint.step i =
      { threads := Function.update joint.threads i (next (Disk.act op joint.disk).1)
        holder := joint.holderAfter i op
        disk := (Disk.act op joint.disk).2 } := by
  rw [step, h]
  exact if_neg (by simp [hfree])

/-- An operation on no lock need not wait, and leaves the locks as they are. -/
theorem step_of_no_lock (h : joint.threads i = .step op next) (hlocks : ¬ op.Locks) :
    joint.step i =
      { threads := Function.update joint.threads i (next (Disk.act op joint.disk).1)
        holder := joint.holder
        disk := (Disk.act op joint.disk).2 } := by
  have hfree : joint.isBlocked op = false := by
    cases op with
    | acquire => exact absurd trivial hlocks
    | _ => rfl
  have hholder : joint.holderAfter i op = joint.holder := by
    cases op with
    | acquire => exact absurd trivial hlocks
    | release => exact absurd trivial hlocks
    | _ => rfl
  rw [step_of_free h hfree, hholder]

omit [DecidableEq ι] in
theorem isDone_eq_true_iff : joint.isDone i = true ↔ ∃ a, joint.threads i = .done a := by
  unfold isDone
  cases joint.threads i <;> simp

theorem completed_eq_nil (h : (joint.step i).isDone i = joint.isDone i) :
    joint.completed i = [] := by
  simp [completed, h]

theorem completed_eq_singleton (h : joint.isDone i = false)
    (hdone : (joint.step i).isDone i = true) :
    joint.completed i = [i] := by
  simp [completed, h, hdone]

theorem completions_cons (i : ι) (rest : List ι) :
    joint.completions (i :: rest) = joint.completed i ++ (joint.step i).completions rest := rfl

theorem completions_append (first second : List ι) :
    joint.completions (first ++ second) =
      joint.completions first ++ (joint.play first).completions second := by
  induction first generalizing joint with
  | nil => rfl
  | cons i first ih =>
    rw [List.cons_append, completions_cons, completions_cons, ih, List.append_assoc]
    rfl

end Joint

/-- Runs programs one after the other. -/
def Filing.oneByOne : List (Filing α) → Filing (List α)
  | [] => return []
  | program :: rest => do
    let a ← program
    let as ← oneByOne rest
    return a :: as

theorem Disk.run_oneByOne_append (first second : List (Filing α)) (disk : Disk) :
    run (Filing.oneByOne (first ++ second)) disk =
      ((run (Filing.oneByOne first) disk).1 ++
          (run (Filing.oneByOne second) (run (Filing.oneByOne first) disk).2).1,
        (run (Filing.oneByOne second) (run (Filing.oneByOne first) disk).2).2) := by
  induction first generalizing disk with
  | nil => simp [Filing.oneByOne]
  | cons program rest ih => simp [Filing.oneByOne, ih]

theorem Disk.run_oneByOne_singleton (program : Filing α) (disk : Disk) :
    run (Filing.oneByOne [program]) disk = ([(run program disk).1], (run program disk).2) := by
  simp [Filing.oneByOne]

/-! ### Work under a lock -/

/-- What remains of a program that works under a lock once it has the lock. -/
def leaving (lock : String) (rest : Filing α) : Filing α := do
  let a ← rest
  Filing.release lock
  return a

theorem holding_eq (lock : String) (body : Filing α) :
    Filing.holding lock body = .step (.acquire lock) fun _ => leaving lock body := rfl

theorem leaving_done (lock : String) (a : α) :
    leaving lock (.done a : Filing α) = .step (.release lock) fun _ => .done a := rfl

theorem leaving_step (lock : String) (op : FileOp) (next : op.Answer → Filing α) :
    leaving lock (.step op next : Filing α) = .step op fun answer =>
      leaving lock (next answer) := rfl

theorem isDone_of_leaving {joint : Joint ι α} {i : ι} {lock : String} {rest : Filing α}
    (h : joint.threads i = leaving lock rest) : joint.isDone i = false := by
  unfold Joint.isDone
  rw [h]
  cases rest <;> rfl

/-- A program that still has its lock to give back has not come to its end. -/
theorem Joint.completed_of_leaving [DecidableEq ι] {joint : Joint ι α} {i : ι} {lock : String}
    {rest : Filing α} (hdone : joint.isDone i = false)
    (h : (joint.step i).threads i = leaving lock rest) : joint.completed i = [] :=
  completed_eq_nil ((isDone_of_leaving h).trans hdone.symm)

/-- Work that takes no lock of its own, and reads in its first operation only. -/
structure Work (body : Filing α) : Prop where
  lockFree : body.Avoids FileOp.Locks
  readsFirst : ∀ op next, body = .step op next → ∀ answer, (next answer).Avoids FileOp.Reads

/-- The programs that came to their end, each with the disk it left to the next, as if they had
run one after the other. -/
def inOrder (lock : String) (body : ι → Filing α) (start : Disk) (order : List ι) : List α × Disk :=
  Disk.run (Filing.oneByOne (order.map fun i => Filing.holding lock (body i))) start

theorem inOrder_concat (lock : String) (body : ι → Filing α) (start : Disk) (order : List ι)
    (i : ι) :
    inOrder lock body start (order ++ [i]) =
      ((inOrder lock body start order).1 ++
          [(Disk.run (body i) (inOrder lock body start order).2).1],
        (Disk.run (body i) (inOrder lock body start order).2).2) := by
  unfold inOrder
  rw [List.map_append, List.map_singleton, Disk.run_oneByOne_append, Disk.run_oneByOne_singleton,
    Disk.run_holding]

/-- The joint state of programs that work under one lock: what the finished ones did is what
they do one after the other, and at most one of the others has begun. -/
structure Orderly (lock : String) (body : ι → Filing α) (start : Disk) (order : List ι)
    (joint : Joint ι α) : Prop where
  distinct : order.Nodup
  answered : order.map joint.threads = (inOrder lock body start order).1.map .done
  waiting : ∀ i ∉ order, joint.holder lock ≠ some i → joint.threads i = Filing.holding lock (body i)
  idle : joint.holder lock = none → joint.disk = (inOrder lock body start order).2
  working : ∀ i, joint.holder lock = some i → i ∉ order ∧
    ∃ rest, joint.threads i = leaving lock rest ∧ rest.Avoids FileOp.Locks ∧
    Disk.run rest joint.disk = Disk.run (body i) (inOrder lock body start order).2 ∧
    ((rest = body i ∧ joint.disk = (inOrder lock body start order).2) ∨ rest.Avoids FileOp.Reads)

namespace Orderly

variable {lock : String} {body : ι → Filing α} {start : Disk} {order : List ι}
  {joint : Joint ι α} {i : ι}

theorem done_of_mem (h : Orderly lock body start order joint) (hi : i ∈ order) :
    ∃ a, joint.threads i = .done a := by
  have hmem : joint.threads i ∈ (inOrder lock body start order).1.map .done :=
    h.answered ▸ List.mem_map_of_mem hi
  obtain ⟨a, -, ha⟩ := List.mem_map.mp hmem
  exact ⟨a, ha.symm⟩

/-- A program that has an operation left is not among those that came to their end. -/
theorem not_mem_of_step (h : Orderly lock body start order joint) {op : FileOp}
    {next : op.Answer → Filing α} (hi : joint.threads i = .step op next) : i ∉ order := by
  intro hmem
  obtain ⟨a, ha⟩ := h.done_of_mem hmem
  rw [ha] at hi
  cases hi

theorem done_iff_mem (h : Orderly lock body start order joint) :
    (∃ a, joint.threads i = .done a) ↔ i ∈ order := by
  refine ⟨fun ⟨a, ha⟩ => ?_, h.done_of_mem⟩
  by_contra hfresh
  have hnotDone : joint.isDone i = false := by
    by_cases hholder : joint.holder lock = some i
    · obtain ⟨-, rest, hrest, -⟩ := h.working i hholder
      exact isDone_of_leaving hrest
    · unfold Joint.isDone
      rw [h.waiting i hfresh hholder]
      rfl
  simp [Joint.isDone, ha] at hnotDone

/-- Whoever is about to read finds what whole programs have left. -/
theorem disk_of_reading (h : Orderly lock body start order joint) {path : Path}
    {next : Except IoError String → Filing α} (hi : joint.threads i = .step (.readText path) next) :
    joint.disk = (inOrder lock body start order).2 := by
  by_cases hholder : joint.holder lock = some i
  · obtain ⟨-, rest, hrest, -, -, hreads⟩ := h.working i hholder
    rcases hreads with ⟨-, hdisk⟩ | hlater
    · exact hdisk
    · rw [hi] at hrest
      cases rest with
      | done a => cases hrest
      | step op rest =>
        cases hrest.trans (leaving_step lock op rest)
        exact absurd trivial hlater.1
  · rw [h.waiting i (h.not_mem_of_step hi) hholder] at hi
    cases hi

variable [DecidableEq ι]

theorem map_update_threads (threads : ι → Filing α) (hi : i ∉ order) (p : Filing α) :
    order.map (Function.update threads i p) = order.map threads := by
  refine List.map_congr_left fun j hj => ?_
  have hne : j ≠ i := by
    rintro rfl
    exact hi hj
  rw [Function.update_of_ne hne]

/-- The program that has the lock gives it back and comes to its end. -/
theorem leave (h : Orderly lock body start order joint) {a : α}
    (hholder : joint.holder lock = some i) (hi : joint.threads i = leaving lock (.done a))
    (hrun : Disk.run (.done a) joint.disk = Disk.run (body i) (inOrder lock body start order).2) :
    Orderly lock body start (order ++ [i])
      { threads := Function.update joint.threads i (.done a)
        holder := Function.update joint.holder lock none
        disk := joint.disk } := by
  have hfresh := h.not_mem_of_step hi
  have hlast := inOrder_concat lock body start order i
  rw [← hrun] at hlast
  refine ⟨?_, ?_, ?_, ?_, ?_⟩
  · exact h.distinct.append (List.nodup_singleton i) (List.disjoint_singleton.mpr hfresh)
  · rw [hlast, List.map_append, List.map_append, map_update_threads _ hfresh, h.answered]
    simp [Disk.run, Program.run]
  · intro j hj _
    have hne : j ≠ i := by
      rintro rfl
      exact hj (List.mem_append_right order (List.mem_singleton_self j))
    dsimp only
    rw [Function.update_of_ne hne]
    refine h.waiting j (fun hmem => hj (List.mem_append_left _ hmem)) ?_
    rw [hholder]
    exact fun heq => hne (Option.some.inj heq).symm
  · intro _
    rw [hlast]
    rfl
  · intro j hj
    simp at hj

/-- The program that has the lock does the next operation of its work. -/
theorem work (h : Orderly lock body start order joint) {op : FileOp} {next : op.Answer → Filing α}
    (hwork : Work (body i)) (hholder : joint.holder lock = some i)
    (hi : joint.threads i = leaving lock (.step op next))
    (hfree : ∀ answer, (next answer).Avoids FileOp.Locks)
    (hrun : Disk.run (.step op next) joint.disk =
      Disk.run (body i) (inOrder lock body start order).2)
    (hreads : (.step op next : Filing α) = body i ∨
      Program.Avoids FileOp.Reads (.step op next : Filing α)) :
    Orderly lock body start order
      { threads := Function.update joint.threads i (leaving lock (next (Disk.act op joint.disk).1))
        holder := joint.holder
        disk := (Disk.act op joint.disk).2 } := by
  have hfresh := h.not_mem_of_step hi
  refine ⟨h.distinct, ?_, ?_, ?_, ?_⟩
  · dsimp only
    rw [map_update_threads _ hfresh, h.answered]
  · intro j hj hnot
    have hne : j ≠ i := by
      rintro rfl
      exact hnot hholder
    dsimp only
    rw [Function.update_of_ne hne]
    exact h.waiting j hj hnot
  · intro hnone
    rw [hholder] at hnone
    cases hnone
  · intro j hj
    obtain rfl : i = j := Option.some.inj (hholder.symm.trans hj)
    refine ⟨hfresh, _, Function.update_self _ _ _, hfree _, hrun, .inr ?_⟩
    rcases hreads with hbody | hlater
    · exact hwork.readsFirst op next hbody.symm _
    · exact hlater.2 _

/-- A program takes the free lock. -/
theorem enter (h : Orderly lock body start order joint) (hwork : Work (body i)) (hi : i ∉ order)
    (hfree : joint.holder lock = none) :
    Orderly lock body start order
      { threads := Function.update joint.threads i (leaving lock (body i))
        holder := Function.update joint.holder lock (some i)
        disk := joint.disk } := by
  refine ⟨h.distinct, ?_, ?_, ?_, ?_⟩
  · dsimp only
    rw [map_update_threads _ hi, h.answered]
  · intro j hj hnot
    have hne : j ≠ i := by
      rintro rfl
      exact hnot (Function.update_self _ _ _)
    dsimp only
    rw [Function.update_of_ne hne]
    exact h.waiting j hj (by simp [hfree])
  · intro hnone
    simp at hnone
  · intro j hj
    obtain rfl : i = j := by simpa using hj
    exact ⟨hi, body i, Function.update_self _ _ _, hwork.lockFree, by rw [h.idle hfree],
      .inl ⟨rfl, h.idle hfree⟩⟩

theorem step (h : Orderly lock body start order joint) (hwork : ∀ i, Work (body i)) (i : ι) :
    Orderly lock body start (order ++ joint.completed i) (joint.step i) := by
  have hstay : joint.step i = joint →
      Orderly lock body start (order ++ joint.completed i) (joint.step i) := by
    intro hstep
    rw [Joint.completed_eq_nil (by rw [hstep]), hstep, List.append_nil]
    exact h
  by_cases hdone : joint.isDone i
  · obtain ⟨a, ha⟩ := Joint.isDone_eq_true_iff.mp hdone
    exact hstay (Joint.step_of_done ha)
  have hnotDone : joint.isDone i = false := by simpa using hdone
  have hfresh : i ∉ order := fun hi => hdone (Joint.isDone_eq_true_iff.mpr (h.done_of_mem hi))
  by_cases hholder : joint.holder lock = some i
  · obtain ⟨-, rest, hrest, hlocks, hrun, hreads⟩ := h.working i hholder
    cases rest with
    | done a =>
      have hstep := Joint.step_of_free (hrest.trans (leaving_done lock a)) rfl
      have hcompleted := Joint.completed_eq_singleton hnotDone (by simp [hstep, Joint.isDone])
      rw [hcompleted, hstep]
      exact h.leave hholder hrest hrun
    | step op next =>
      have hstep := Joint.step_of_no_lock (hrest.trans (leaving_step lock op next)) hlocks.1
      have hcompleted : joint.completed i = [] :=
        Joint.completed_of_leaving hnotDone (by rw [hstep]; exact Function.update_self _ _ _)
      rw [hcompleted, hstep, List.append_nil]
      exact h.work (hwork i) hholder hrest hlocks.2 hrun (hreads.imp And.left id)
  · have hwaiting := h.waiting i hfresh hholder
    rw [holding_eq] at hwaiting
    cases hfree : joint.holder lock with
    | some j => exact hstay (Joint.step_of_blocked hwaiting (by simp [Joint.isBlocked, hfree]))
    | none =>
      have hstep := Joint.step_of_free hwaiting (by simp [Joint.isBlocked, hfree])
      have hcompleted : joint.completed i = [] :=
        Joint.completed_of_leaving hnotDone (by rw [hstep]; exact Function.update_self _ _ _)
      rw [hcompleted, hstep, List.append_nil]
      exact h.enter (hwork i) hfresh hfree

theorem play (h : Orderly lock body start order joint) (hwork : ∀ i, Work (body i))
    (schedule : List ι) :
    Orderly lock body start (order ++ joint.completions schedule) (joint.play schedule) := by
  induction schedule generalizing order joint with
  | nil => simpa [Joint.completions, Joint.play] using h
  | cons i rest ih =>
    rw [Joint.completions_cons, ← List.append_assoc]
    exact ih (h.step hwork i)

end Orderly

/-- The programs as they begin, with every lock free. -/
def Joint.start (lock : String) (body : ι → Filing α) (disk : Disk) : Joint ι α where
  threads i := Filing.holding lock (body i)
  holder _ := none
  disk := disk

theorem orderly_start (lock : String) (body : ι → Filing α) (disk : Disk) :
    Orderly lock body disk [] (Joint.start lock body disk) where
  distinct := .nil
  answered := rfl
  waiting _ _ _ := rfl
  idle _ := rfl
  working _ h := nomatch h

end Files

end Jobflow
