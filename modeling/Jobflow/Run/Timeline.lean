import Jobflow.Run.Session

/-!
Runs in time. Time is counted in milliseconds and passes only while a run waits
for an answer. A run that is asked to stop while it waits for an operation of
its workflow stops then and there; everything else it waits for to its end.
-/

namespace Jobflow.Run

open Jobflow.Cookie (Jar)
open Jobflow.Page (PageError)
open Jobflow.Workflow (Browse Command FlowError)

/-- An answer that comes after a delay, and the world once it was asked for. -/
structure Delayed (W α : Type) where
  delay : Nat
  answer : α
  world : W

/-- An answer that comes at once. -/
def Delayed.atOnce {W α : Type} (reply : α × W) : Delayed W α := ⟨0, reply.1, reply.2⟩

/-- The surroundings of runs, with state `W`: how they answer each operation,
and how they change by themselves as time passes. -/
structure Host (W : Type) where
  workflow : String → W → Delayed W (Except FlowError Command)
  openSession : Option Jar → W → Delayed W (Except PageError SessionId)
  browse : SessionId → (op : Browse) → W → Delayed W op.Answer
  exportCookies : SessionId → W → Delayed W (Except PageError Jar)
  closeSession : SessionId → W → Delayed W (Except PageError Unit)
  loadCookies : String → W → Delayed W (Except FlowError (Option Jar))
  saveCookies : String → Jar → W → Delayed W (Except FlowError Unit)
  /-- the report of a breakdown that comes instead of the answer and ends the run -/
  breakdown : RunOp → W → Option String
  /-- the world at a later time -/
  pass : Nat → W → W

/-- When runs are asked to stop, if ever. -/
abbrev Cancellation := Option Nat

/-- Whether runs were asked to stop by a certain time. -/
def Cancellation.isDue (cancel : Cancellation) (time : Nat) : Bool :=
  match cancel with
  | some at_ => at_ ≤ time
  | none => false

/-- An answer with the time at which it comes. -/
structure Timed (W α : Type) where
  time : Nat
  answer : α
  world : W

/-- The answer to something that is asked for at `time`. -/
def Delayed.from {W α : Type} (time : Nat) (reply : Delayed W α) : Timed W α :=
  ⟨time + reply.delay, reply.answer, reply.world⟩

/-- The answer to an operation that is asked for at `time`. -/
def respond {W : Type} (host : Host W) (cancel : Cancellation) (time : Nat) :
    (op : RunOp) → W → Timed W op.Answer
  | .isCancelled, w => ⟨time, cancel.isDue time, w⟩
  | .workflow name, w => (host.workflow name w).from time
  | .openSession cookies, w => (host.openSession cookies w).from time
  | .browse session op, w =>
    let reply := host.browse session op w
    if 0 < reply.delay ∧ cancel.isDue (time + reply.delay) then
      ⟨max time (cancel.getD time), none, reply.world⟩
    else ⟨time + reply.delay, some reply.answer, reply.world⟩
  | .exportCookies session, w => (host.exportCookies session w).from time
  | .closeSession session, w => (host.closeSession session w).from time
  | .loadCookies site, w => (host.loadCookies site w).from time
  | .saveCookies site jar, w => (host.saveCookies site jar w).from time

/-- One run on its own, from `time` on, in surroundings that do not break down. -/
def runAlone {W α : Type} (host : Host W) (cancel : Cancellation) :
    Running α → Nat → W → Timed W α
  | .done a, time, w => ⟨time, a, w⟩
  | .step op next, time, w =>
    let reply := respond host cancel time op w
    runAlone host cancel (next reply.answer) reply.time (host.pass reply.time reply.world)

/-! ### Runs side by side -/

/-- Whether an answer tells that the run was stopped while it waited. -/
def RunOp.wasCut : (op : RunOp) → op.Answer → Bool
  | .browse .., none => true
  | _, _ => false

/-- What remains of a run after its first operation, and when it goes on; a run whose
surroundings break down reports that at once. -/
def advance {W α : Type} (host : Host W) (cancel : Cancellation) (aborted : String → α)
    (time : Nat) (op : RunOp) (next : op.Answer → Running α) (w : W) : Timed W (Running α) :=
  let reply := respond host cancel time op w
  match host.breakdown op w with
  | none => ⟨reply.time, next reply.answer, reply.world⟩
  | some report =>
    if op.wasCut reply.answer then ⟨reply.time, next reply.answer, reply.world⟩
    else ⟨reply.time, .done (aborted report), reply.world⟩

/-- A run among others: when it goes on, its place among those that go on at the
same time, and what remains of it. -/
structure Strand (α : Type) where
  due : Nat
  turn : Nat
  rest : Running α

namespace Strand

variable {α : Type}

def result? (s : Strand α) : Option α :=
  match s.rest with
  | .done a => some a
  | .step .. => none

/-- The strand after an operation that is answered at `time`; it takes the place `turn`
when it has to wait for the answer. -/
def resume (s : Strand α) (turn time : Nat) (rest : Running α) : Strand α :=
  ⟨time, if s.due < time then turn else s.turn, rest⟩

/-- The next place for a strand that starts to wait, once `s` was answered at `time`. -/
def turnAfter (s : Strand α) (turn time : Nat) : Nat :=
  if s.due < time then turn + 1 else turn

/-- Whether `s` goes on before `t`. -/
def precedes (s t : Strand α) : Bool :=
  s.due < t.due || (s.due == t.due && s.turn < t.turn)

end Strand

/-- The place of the strand that goes on next, if one is not done. -/
def nextStrand {α : Type} : List (Strand α) → Option (Nat × Strand α)
  | [] => none
  | s :: rest =>
    let later := (nextStrand rest).map fun (i, t) => (i + 1, t)
    match s.rest with
    | .done _ => later
    | .step .. =>
      match later with
      | some (i, t) => if t.precedes s then some (i, t) else some (0, s)
      | none => some (0, s)

/-- The strand that goes on next is the first of the list, which is not done, or that of
the others. -/
theorem nextStrand_cons {α : Type} {head s : Strand α} {rest : List (Strand α)} {i : Nat}
    (h : nextStrand (head :: rest) = some (i, s)) :
    (i = 0 ∧ s = head ∧ ∃ op next, head.rest = .step op next) ∨
      ∃ j, i = j + 1 ∧ nextStrand rest = some (j, s) := by
  have later {j : Nat} {t : Strand α}
      (hj : ((nextStrand rest).map fun (i, t) => (i + 1, t)) = some (j, t)) :
      ∃ k, j = k + 1 ∧ nextStrand rest = some (k, t) := by
    simp only [Option.map_eq_some_iff, Prod.mk.injEq] at hj
    obtain ⟨⟨k, u⟩, hk, rfl, rfl⟩ := hj
    exact ⟨k, rfl, hk⟩
  unfold nextStrand at h
  split at h
  · exact .inr (later h)
  · next op next hstep =>
    dsimp only at h
    split at h
    · next hj =>
      split at h
      · cases h
        exact .inr (later hj)
      · cases h
        exact .inl ⟨rfl, rfl, op, next, hstep⟩
    · cases h
      exact .inl ⟨rfl, rfl, op, next, hstep⟩

theorem getElem?_of_nextStrand {α : Type} {strands : List (Strand α)} {i : Nat} {s : Strand α}
    (h : nextStrand strands = some (i, s)) : strands[i]? = some s := by
  induction strands generalizing i s with
  | nil => simp [nextStrand] at h
  | cons head rest ih =>
    rcases nextStrand_cons h with ⟨rfl, rfl, -⟩ | ⟨j, rfl, hj⟩
    · rfl
    · rw [List.getElem?_cons_succ]
      exact ih hj

/-- `Shorter p q`: `p` remains of `q` after its first operation, or is done while `q`
is not. -/
inductive Shorter {I : Interface} {α : Type} : Program I α → Program I α → Prop where
  | after {p q : Program I α} : Program.After p q → Shorter p q
  | done (a : α) (op : I.Op) (next : I.Answer op → Program I α) :
      Shorter (.done a) (.step op next)

theorem shorter_acc {I : Interface} {α : Type} (p : Program I α) : Acc Shorter p := by
  have hdone (a : α) : Acc Shorter (.done a : Program I α) := by
    refine ⟨_, fun _ h => ?_⟩
    cases h with
    | after hafter => cases hafter
  induction p with
  | done a => exact hdone a
  | step op next ih =>
    refine ⟨_, fun _ h => ?_⟩
    cases h with
    | after hafter => cases hafter with | intro _ _ answer => exact ih answer
    | done a => exact hdone a

theorem shorter_advance {W α : Type} (host : Host W) (cancel : Cancellation)
    (aborted : String → α) (time : Nat) (op : RunOp) (next : op.Answer → Running α) (w : W) :
    Shorter (advance host cancel aborted time op next w).answer
      (.step op next : Running α) := by
  have hafter (answer : op.Answer) : Shorter (next answer) (.step op next : Running α) :=
    .after (.intro (I := running) op next answer)
  unfold advance
  split
  · exact hafter _
  · dsimp only
    split
    · exact hafter _
    · exact .done (I := running) _ op next

/-- Exactly one program of a list has become shorter. -/
inductive Advanced {I : Interface} {α : Type} :
    List (Program I α) → List (Program I α) → Prop where
  | head {p q : Program I α} {rest : List (Program I α)} :
      Shorter p q → Advanced (p :: rest) (q :: rest)
  | tail {p : Program I α} {rest rest' : List (Program I α)} :
      Advanced rest rest' → Advanced (p :: rest) (p :: rest')

theorem advanced_acc {I : Interface} {α : Type} (ps : List (Program I α)) : Acc Advanced ps := by
  induction ps with
  | nil => exact ⟨_, fun _ h => by cases h⟩
  | cons p rest ih =>
    have hp := shorter_acc p
    induction hp generalizing rest with
    | intro p _ ihp =>
      induction ih with
      | intro rest hrest ihrest =>
        refine ⟨_, fun qs h => ?_⟩
        cases h with
        | head step => exact ihp _ step rest ⟨_, hrest⟩
        | tail step => exact ihrest _ step

theorem advanced_set {I : Interface} {α : Type} {ps : List (Program I α)} {i : Nat}
    {p q : Program I α} (h : ps[i]? = some q) (step : Shorter p q) :
    Advanced (ps.set i p) ps := by
  induction ps generalizing i with
  | nil => simp at h
  | cons head rest ih =>
    cases i with
    | zero =>
      simp only [List.getElem?_cons_zero, Option.some.injEq] at h
      subst h
      exact .head step
    | succ i =>
      simp only [List.getElem?_cons_succ] at h
      exact .tail (ih h)

instance {I : Interface} {α : Type} : WellFoundedRelation (List (Program I α)) where
  rel := Advanced
  wf := ⟨advanced_acc⟩

/-- Lets the runs go on in the order of their times until all are done; `turn`
is the next place for a run that starts to wait. -/
def runTogether {W α : Type} (host : Host W) (cancel : Cancellation) (aborted : String → α)
    (strands : List (Strand α)) (turn time : Nat) (w : W) : Timed W (List (Strand α)) :=
  match _h : nextStrand strands with
  | none => ⟨time, strands, w⟩
  | some (i, s) =>
    match _hs : s.rest with
    | .done _ => ⟨time, strands, w⟩
    | .step op next =>
      let reply := advance host cancel aborted s.due op next (host.pass s.due w)
      runTogether host cancel aborted (strands.set i (s.resume turn reply.time reply.answer))
        (s.turnAfter turn reply.time) (max time reply.time) reply.world
termination_by strands.map Strand.rest
decreasing_by
  have hi := getElem?_of_nextStrand _h
  rw [List.map_set]
  refine advanced_set (q := s.rest) ?_ ?_
  · simp [List.getElem?_map, hi]
  · rw [_hs]
    exact shorter_advance ..

/-- Starts runs at the same time; their results in the same order. A run whose
surroundings break down ends with what `aborted` makes of the report. -/
def runAll {W α : Type} (host : Host W) (cancel : Cancellation) (aborted : String → α)
    (programs : List (Running α)) (time : Nat) (w : W) : Timed W (List α) :=
  let strands := programs.zipIdx.map fun (program, i) => Strand.mk time i program
  let ended := runTogether host cancel aborted strands strands.length time w
  ⟨ended.time, ended.answer.filterMap Strand.result?, ended.world⟩

end Jobflow.Run
