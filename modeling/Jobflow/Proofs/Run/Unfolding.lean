import Jobflow.Run.Timeline

/-!
What one run among others does. However the runs of a batch are interleaved, each of
them performs its own operations in order, every operation is answered at its own
time, and the run either comes to its end or breaks down at one operation.
-/

namespace Jobflow.Run

/-- An operation with its answer, and the times of both. -/
structure Event where
  op : RunOp
  answer : op.Answer
  asked : Nat
  answered : Nat

/-- The operation and its answer. -/
def Event.exchange (event : Event) : (op : running.Op) × running.Answer op :=
  ⟨event.op, event.answer⟩

/-- Whether an event tells the run that it was asked to stop. -/
def Event.stops (event : Event) : Bool :=
  match event.op, event.answer with
  | .isCancelled, true => true
  | .browse .., none => true
  | _, _ => false

section Unfolding

variable {W α β : Type} {host : Host W} {cancel : Cancellation}

/-- `Unfolds host cancel time p events finish a`: from `time` on the surroundings answer
the operations of `p` as in `events`, and at `finish` the result is `a`. Other runs may
change the world between two operations. -/
inductive Unfolds (host : Host W) (cancel : Cancellation) :
    Nat → Running α → List Event → Nat → α → Prop
  | done (time : Nat) (a : α) : Unfolds host cancel time (.done a) [] time a
  | step {time finish : Nat} {op : RunOp} {next : op.Answer → Running α} {w : W}
      {reply : Timed W op.Answer} {events : List Event} {a : α} :
      respond host cancel time op w = reply →
      Unfolds host cancel reply.time (next reply.answer) events finish a →
      Unfolds host cancel time (.step op next) (⟨op, reply.answer, time, reply.time⟩ :: events)
        finish a

/-- The same for a run whose surroundings break down at the operation after the events. -/
inductive BreaksDown (host : Host W) (cancel : Cancellation) :
    Nat → Running α → List Event → Nat → String → Prop
  | here {time : Nat} {op : RunOp} {next : op.Answer → Running α} {w : W} {report : String}
      {reply : Timed W op.Answer} :
      respond host cancel time op w = reply → host.breakdown op w = some report →
      BreaksDown host cancel time (.step op next) [] reply.time report
  | step {time finish : Nat} {op : RunOp} {next : op.Answer → Running α} {w : W}
      {reply : Timed W op.Answer} {events : List Event} {report : String} :
      respond host cancel time op w = reply →
      BreaksDown host cancel reply.time (next reply.answer) events finish report →
      BreaksDown host cancel time (.step op next)
        (⟨op, reply.answer, time, reply.time⟩ :: events) finish report

/-- A run comes to its end or breaks down. -/
inductive Concludes (host : Host W) (cancel : Cancellation) (aborted : String → α) (time : Nat)
    (p : Running α) (events : List Event) (finish : Nat) : α → Prop
  | whole {a : α} : Unfolds host cancel time p events finish a →
      Concludes host cancel aborted time p events finish a
  | broken {report : String} : BreaksDown host cancel time p events finish report →
      Concludes host cancel aborted time p events finish (aborted report)

/-! ### Times -/

theorem le_time_respond (host : Host W) (cancel : Cancellation) (time : Nat) (op : RunOp) (w : W) :
    time ≤ (respond host cancel time op w).time := by
  cases op with
  | isCancelled => exact Nat.le_refl _
  | browse session op =>
    simp only [respond]
    split
    · exact Nat.le_max_left _ _
    · exact Nat.le_add_right _ _
  | _ => exact Nat.le_add_right _ _

theorem Unfolds.le_finish {time finish : Nat} {p : Running α} {events : List Event} {a : α}
    (h : Unfolds host cancel time p events finish a) : time ≤ finish := by
  induction h with
  | done => exact Nat.le_refl _
  | step hreply _ ih =>
    have hle := hreply ▸ le_time_respond host cancel _ _ _
    omega

theorem Unfolds.answered_le {time finish : Nat} {p : Running α} {events : List Event} {a : α}
    (h : Unfolds host cancel time p events finish a) :
    ∀ event ∈ events, event.answered ≤ finish := by
  induction h with
  | done => simp
  | step _ htail ih =>
    intro event hevent
    rcases List.mem_cons.mp hevent with rfl | hevent
    · exact htail.le_finish
    · exact ih event hevent

theorem Cancellation.isDue_iff {time : Nat} :
    cancel.isDue time ↔ ∃ stop, cancel = some stop ∧ stop ≤ time := by
  cases cancel <;> simp [Cancellation.isDue]

theorem Cancellation.isDue_mono {time later : Nat} (hle : time ≤ later)
    (hdue : cancel.isDue time) : cancel.isDue later := by
  obtain ⟨stop, rfl, hstop⟩ := isDue_iff.mp hdue
  exact isDue_iff.mpr ⟨stop, rfl, Nat.le_trans hstop hle⟩

/-- A run is told to stop only when that was asked for, and not before. -/
theorem stops_respond {time : Nat} {op : RunOp} {w : W} {reply : Timed W op.Answer}
    (hreply : respond host cancel time op w = reply)
    (hstops : (Event.mk op reply.answer time reply.time).stops) :
    ∃ stop, cancel = some stop ∧ stop ≤ reply.time := by
  subst hreply
  cases op with
  | isCancelled =>
    have hdue : cancel.isDue time = true := by
      cases h : cancel.isDue time with
      | true => rfl
      | false => simp [Event.stops, respond, h] at hstops
    exact Cancellation.isDue_iff.mp hdue
  | browse session op =>
    simp only [respond] at hstops ⊢
    split at hstops
    · next hcut =>
      obtain ⟨stop, rfl, -⟩ := Cancellation.isDue_iff.mp hcut.2
      rw [if_pos hcut]
      exact ⟨stop, rfl, Nat.le_max_right _ _⟩
    · simp [Event.stops] at hstops
  | _ => simp [Event.stops] at hstops

theorem Unfolds.stops {time finish : Nat} {p : Running α} {events : List Event} {a : α}
    (h : Unfolds host cancel time p events finish a) :
    ∀ event ∈ events, event.stops → ∃ stop, cancel = some stop ∧ stop ≤ event.answered := by
  induction h with
  | done => simp
  | step hreply _ ih =>
    intro event hevent hstops
    rcases List.mem_cons.mp hevent with rfl | hevent
    · exact stops_respond hreply hstops
    · exact ih event hevent hstops

/-! ### Programs in sequence -/

theorem Unfolds.of_bind {time finish : Nat} {p : Running α} {f : α → Running β}
    {events : List Event} {b : β} (h : Unfolds host cancel time (p >>= f) events finish b) :
    ∃ first second mid a, events = first ++ second ∧ Unfolds host cancel time p first mid a ∧
      Unfolds host cancel mid (f a) second finish b := by
  induction p generalizing time events with
  | done a => exact ⟨[], events, time, a, rfl, .done time a, h⟩
  | step op next ih =>
    change Unfolds host cancel time (.step op fun answer => next answer >>= f) events finish b at h
    cases h with
    | step hreply htail =>
      obtain ⟨first, second, mid, a, rfl, hfirst, hsecond⟩ := ih _ htail
      exact ⟨_ :: first, second, mid, a, rfl, .step hreply hfirst, hsecond⟩

theorem Unfolds.performs {time finish : Nat} {p : Running α} {events : List Event} {a : α}
    (h : Unfolds host cancel time p events finish a) :
    Program.Performs p (events.map Event.exchange) a := by
  induction h with
  | done _ a => exact .done a
  | step _ _ ih => exact .step ih

end Unfolding

end Jobflow.Run
