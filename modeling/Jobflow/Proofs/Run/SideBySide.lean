import Jobflow.Proofs.Run.Unfolding
import Mathlib.Data.List.Forall2

/-!
Runs side by side. Each run of a batch concludes as it would for itself, with answers
that its surroundings give in some world, and its result stands in its own place. What
the operations of all runs leave alone is the same when all of them are over.
-/

namespace Jobflow.Run

section
variable {W α : Type} {host : Host W} {cancel : Cancellation} {aborted : String → α}

/-! ### The strand that goes on next -/

/-- The strand is done. -/
def Strand.IsDone (s : Strand α) : Prop := ∃ a, s.rest = .done a

theorem isDone_of_nextStrand {strands : List (Strand α)} (h : nextStrand strands = none) :
    ∀ s ∈ strands, s.IsDone := by
  induction strands with
  | nil => simp
  | cons head rest ih =>
    intro s hs
    rw [nextStrand] at h
    dsimp only at h
    split at h
    · next a hdone =>
      rcases List.mem_cons.mp hs with rfl | hs
      · exact ⟨a, hdone⟩
      · exact ih (by simpa using h) s hs
    · split at h
      · split at h <;> cases h
      · cases h

theorem not_isDone_of_nextStrand {strands : List (Strand α)} {i : Nat} {s : Strand α}
    (h : nextStrand strands = some (i, s)) : ¬ s.IsDone := by
  induction strands generalizing i s with
  | nil => simp [nextStrand] at h
  | cons head rest ih =>
    rcases nextStrand_cons h with ⟨-, rfl, op, next, hstep⟩ | ⟨j, -, hj⟩
    · intro hdone
      obtain ⟨a, ha⟩ := hdone
      simp [hstep] at ha
    · exact ih hj

/-! ### One operation -/

theorem le_time_advance (time : Nat) (op : RunOp) (next : op.Answer → Running α) (w : W) :
    time ≤ (advance host cancel aborted time op next w).time := by
  unfold advance
  split
  · exact le_time_respond host cancel time op w
  · dsimp only
    split <;> exact le_time_respond host cancel time op w

theorem Concludes.of_advance {time finish : Nat} {op : RunOp} {next : op.Answer → Running α}
    {w : W} {events : List Event} {a : α} {reply : Timed W (Running α)}
    (hreply : advance host cancel aborted time op next w = reply)
    (h : Concludes host cancel aborted reply.time reply.answer events finish a) :
    ∃ events, Concludes host cancel aborted time (.step op next) events finish a := by
  have hanswer : Concludes host cancel aborted (respond host cancel time op w).time
      (next (respond host cancel time op w).answer) events finish a →
      ∃ events, Concludes host cancel aborted time (.step op next) events finish a := by
    intro hrest
    cases hrest with
    | whole hwhole => exact ⟨_, .whole (.step rfl hwhole)⟩
    | broken hbroken => exact ⟨_, .broken (.step rfl hbroken)⟩
  subst hreply
  unfold advance at h
  split at h
  · exact hanswer h
  · next report hreport =>
    dsimp only at h
    split at h
    · exact hanswer h
    · cases h with
      | whole hwhole =>
        cases hwhole with
        | done => exact ⟨[], .broken (.here rfl hreport)⟩
      | broken hbroken => cases hbroken

/-! ### All strands -/

/-- Every strand concludes on its own, in its place and by the end of all. -/
theorem concludes_runTogether (host : Host W) (cancel : Cancellation) (aborted : String → α)
    (strands : List (Strand α)) (turn time : Nat) (w : W) (hdue : ∀ s ∈ strands, s.due ≤ time) :
    let ended := runTogether host cancel aborted strands turn time w
    ended.answer.length = strands.length ∧ time ≤ ended.time ∧
      ∀ (i : Nat) (s : Strand α), strands[i]? = some s →
        ∃ events finish a s', ended.answer[i]? = some s' ∧ s'.rest = .done a ∧
          Concludes host cancel aborted s.due s.rest events finish a ∧ finish ≤ ended.time := by
  fun_induction runTogether host cancel aborted strands turn time w with
  | case1 strands turn time w hnone =>
    refine ⟨rfl, Nat.le_refl _, ?_⟩
    intro i s hs
    have hmem := List.mem_of_getElem? hs
    obtain ⟨a, ha⟩ := isDone_of_nextStrand hnone s hmem
    exact ⟨[], s.due, a, s, hs, ha, ha ▸ .whole (.done _ _), hdue s hmem⟩
  | case2 strands turn time w i s hnext a hdone =>
    exact absurd ⟨a, hdone⟩ (not_isDone_of_nextStrand hnext)
  | case3 strands turn time w i s hnext op next hstep reply ih =>
    have hi := getElem?_of_nextStrand hnext
    have hlt : i < strands.length := (List.getElem?_eq_some_iff.mp hi).1
    have hle : s.due ≤ reply.time := le_time_advance ..
    obtain ⟨hlength, htime, hall⟩ := ih (by
      intro t ht
      rcases List.mem_or_eq_of_mem_set ht with hold | rfl
      · exact Nat.le_trans (hdue t hold) (Nat.le_max_left _ _)
      · exact Nat.le_max_right _ _)
    refine ⟨by rw [hlength, List.length_set], Nat.le_trans (Nat.le_max_left _ _) htime, ?_⟩
    intro j t hj
    -- only the strand that went on has changed, and it concludes one operation later
    by_cases hij : i = j
    · subst hij
      obtain rfl := Option.some.inj (hi.symm.trans hj)
      obtain ⟨events, finish, a, s', hs', hdone, hconcludes, hfinish⟩ :=
        hall i _ (List.getElem?_set_self hlt)
      obtain ⟨events', hconcludes'⟩ := Concludes.of_advance rfl hconcludes
      exact ⟨events', finish, a, s', hs', hdone, hstep ▸ hconcludes', hfinish⟩
    · exact hall j t (by rw [List.getElem?_set_ne hij, hj])

/-- The results of strands that are all done stand in their places. -/
theorem forall₂_results {R : Strand α → α → Prop} {strands ended : List (Strand α)}
    (h : List.Forall₂ (fun s s' => ∃ a, s'.rest = .done a ∧ R s a) strands ended) :
    List.Forall₂ R strands (ended.filterMap Strand.result?) := by
  induction h with
  | nil => exact .nil
  | cons hhead _ ih =>
    obtain ⟨a, hdone, hR⟩ := hhead
    rw [List.filterMap_cons_some (by rw [Strand.result?, hdone])]
    exact .cons hR ih

private theorem forall₂_of_zipIdx {β γ : Type} {R : β → γ → Prop} {xs : List β} {ys : List γ}
    (h : List.Forall₂ (fun x y => R x.1 y) xs.zipIdx ys) : List.Forall₂ R xs ys := by
  rw [← List.zipIdx_map_fst 0 xs, List.forall₂_map_left_iff]
  exact h

/-- Every run of a batch concludes, and its result stands in its place. -/
theorem concludes_runAll (host : Host W) (cancel : Cancellation) (aborted : String → α)
    (programs : List (Running α)) (time : Nat) (w : W) :
    let ended := runAll host cancel aborted programs time w
    time ≤ ended.time ∧
      List.Forall₂ (fun p a => ∃ events finish,
        Concludes host cancel aborted time p events finish a ∧ finish ≤ ended.time)
        programs ended.answer := by
  let strands := programs.zipIdx.map fun started => Strand.mk time started.2 started.1
  have hdue : ∀ s ∈ strands, s.due ≤ time := by
    intro s hs
    obtain ⟨_, -, rfl⟩ := List.mem_map.mp hs
    exact Nat.le_refl _
  obtain ⟨hlength, htime, hall⟩ :=
    concludes_runTogether host cancel aborted strands strands.length time w hdue
  refine ⟨htime, ?_⟩
  have hresults := forall₂_results (R := fun s a => ∃ events finish,
      Concludes host cancel aborted s.due s.rest events finish a ∧
        finish ≤ (runTogether host cancel aborted strands strands.length time w).time)
    (List.forall₂_of_length_eq_of_get hlength.symm fun i hi hi' => by
      obtain ⟨events, finish, a, s', hs', hdone, hconcludes, hfinish⟩ :=
        hall i _ (List.getElem?_eq_getElem hi)
      obtain rfl := Option.some.inj ((List.getElem?_eq_getElem hi').symm.trans hs')
      exact ⟨a, hdone, events, finish, hconcludes, hfinish⟩)
  rw [List.forall₂_map_left_iff] at hresults
  exact forall₂_of_zipIdx hresults

/-! ### The world -/

/-- A property of the world that no operation of a run and no passing of time changes. -/
structure Steady (host : Host W) (P : W → Prop) : Prop where
  pass : ∀ {time : Nat} {w : W}, P w → P (host.pass time w)
  respond : ∀ {cancel : Cancellation} {time : Nat} {op : RunOp} {w : W}, P w →
    P (respond host cancel time op w).world

variable {P : W → Prop}

theorem Steady.advance (hP : Steady host P) {time : Nat} {op : RunOp}
    {next : op.Answer → Running α} {w : W} (hw : P w) :
    P (advance host cancel aborted time op next w).world := by
  unfold Run.advance
  split
  · exact hP.respond hw
  · dsimp only
    split <;> exact hP.respond hw

theorem Steady.runTogether (hP : Steady host P) (strands : List (Strand α)) (turn time : Nat)
    (w : W) (hw : P w) : P (runTogether host cancel aborted strands turn time w).world := by
  fun_induction Run.runTogether host cancel aborted strands turn time w with
  | case1 => exact hw
  | case2 => exact hw
  | case3 strands turn time w i s hnext op next hstep reply ih =>
    exact ih (hP.advance (hP.pass hw))

theorem Steady.runAll (hP : Steady host P) (programs : List (Running α)) (time : Nat) {w : W}
    (hw : P w) : P (runAll host cancel aborted programs time w).world :=
  hP.runTogether _ _ _ _ hw

/-! ### One run -/

theorem advance_of_whole (hwhole : ∀ op w, host.breakdown op w = none) (time : Nat) (op : RunOp)
    (next : op.Answer → Running α) (w : W) :
    advance host cancel aborted time op next w =
      ⟨(respond host cancel time op w).time, next (respond host cancel time op w).answer,
        (respond host cancel time op w).world⟩ := by
  unfold Run.advance
  split
  · rfl
  · next hreport => exact absurd hreport (by simp [hwhole])

theorem runTogether_of_step (hwhole : ∀ op w, host.breakdown op w = none) (time place turn : Nat)
    (op : RunOp) (next : op.Answer → Running α) (w : W) :
    let s : Strand α := ⟨time, place, .step op next⟩
    let reply := respond host cancel time op (host.pass time w)
    runTogether host cancel aborted [s] turn time w =
      runTogether host cancel aborted [s.resume turn reply.time (next reply.answer)]
        (s.turnAfter turn reply.time) reply.time reply.world := by
  intro s reply
  have hlater : max time reply.time = reply.time := Nat.max_eq_right (le_time_respond ..)
  let advanced := advance host cancel aborted time op next (host.pass time w)
  have hadvance : advanced = ⟨reply.time, next reply.answer, reply.world⟩ :=
    advance_of_whole hwhole time op next (host.pass time w)
  have hstep : runTogether host cancel aborted [s] turn time w =
      runTogether host cancel aborted [s.resume turn advanced.time advanced.answer]
        (s.turnAfter turn advanced.time) (max time advanced.time) advanced.world := by
    rw [Run.runTogether]
    rfl
  rw [hstep, hadvance]
  exact congrArg (fun later => runTogether host cancel aborted
    [s.resume turn reply.time (next reply.answer)] (s.turnAfter turn reply.time) later
    reply.world) hlater

/-- A run without others beside it goes on as it does alone. -/
theorem runTogether_singleton (hwhole : ∀ op w, host.breakdown op w = none) (p : Running α)
    (time place turn : Nat) (w : W) :
    let alone := runAlone host cancel p time (host.pass time w)
    ∃ place' w', runTogether host cancel aborted [⟨time, place, p⟩] turn time w =
        ⟨alone.time, [⟨alone.time, place', .done alone.answer⟩], w'⟩ ∧
      host.pass alone.time w' = alone.world := by
  induction p generalizing time place turn w with
  | done a =>
    refine ⟨place, w, ?_, rfl⟩
    rw [Run.runTogether]
    rfl
  | step op next ih =>
    let reply := respond host cancel time op (host.pass time w)
    let s : Strand α := ⟨time, place, .step op next⟩
    obtain ⟨place', w', hrest, hworld⟩ := ih reply.answer reply.time
      (s.resume turn reply.time (next reply.answer)).turn (s.turnAfter turn reply.time) reply.world
    refine ⟨place', w', ?_, hworld⟩
    exact (runTogether_of_step hwhole time place turn op next w).trans hrest

theorem runAll_singleton (hwhole : ∀ op w, host.breakdown op w = none) (cancel : Cancellation)
    (aborted : String → α) (p : Running α) (time : Nat) (w : W) :
    let alone := runAlone host cancel p time (host.pass time w)
    ∃ w', runAll host cancel aborted [p] time w = ⟨alone.time, [alone.answer], w'⟩ ∧
      host.pass alone.time w' = alone.world := by
  intro alone
  obtain ⟨place, w', hruns, hpass⟩ :
      ∃ place w', runTogether host cancel aborted [⟨time, 0, p⟩] 1 time w =
        ⟨alone.time, [⟨alone.time, place, .done alone.answer⟩], w'⟩ ∧
      host.pass alone.time w' = alone.world :=
    runTogether_singleton hwhole p time 0 1 w
  refine ⟨w', ?_, hpass⟩
  simp only [Run.runAll, List.zipIdx_singleton, List.map_singleton, List.length_singleton]
  rw [hruns]
  rfl

end

end Jobflow.Run
