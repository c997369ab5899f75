import Jobflow.Proofs.Run.SideBySide

/-!
The log of runs side by side: every operation of every run in the order in which the
surroundings were asked, with the world that it found. The part of a run in the log is the
course of that run alone.
-/

namespace Jobflow.Run

/-- An operation of a run among others: the place of the run, the world that the operation
found, what happened, and the report of a breakdown if the run ended with it. -/
structure Entry (W : Type) where
  place : Nat
  found : W
  event : Event
  report : Option String

/-- The operation and its answer. -/
def Entry.exchange {W : Type} (entry : Entry W) : (op : running.Op) × running.Answer op :=
  entry.event.exchange

/-- The entries of the run at a place. -/
def own {W : Type} (place : Nat) (log : List (Entry W)) : List (Entry W) :=
  log.filter (·.place == place)

section
variable {W α : Type} {host : Host W} {cancel : Cancellation} {aborted : String → α}

@[simp] theorem own_nil (place : Nat) : own place ([] : List (Entry W)) = [] := rfl

theorem own_cons_self (entry : Entry W) (log : List (Entry W)) :
    own entry.place (entry :: log) = entry :: own entry.place log := by
  simp [own]

theorem own_cons_of_ne {place : Nat} {entry : Entry W} (h : entry.place ≠ place)
    (log : List (Entry W)) : own place (entry :: log) = own place log := by
  simp [own, h]

theorem mem_own {place : Nat} {entry : Entry W} {log : List (Entry W)} :
    entry ∈ own place log ↔ entry ∈ log ∧ entry.place = place := by
  simp [own]

/-! ### One operation -/

/-- The report of a breakdown with which a run ends. A run that was cut short while it waited
ends with that. -/
def brokenBy (host : Host W) (op : RunOp) (answer : op.Answer) (w : W) : Option String :=
  if op.wasCut answer then none else host.breakdown op w

/-- What a run at a place enters for an operation. -/
def Entry.of (host : Host W) (cancel : Cancellation) (place time : Nat) (op : RunOp) (w : W) :
    Entry W :=
  let reply := respond host cancel time op w
  ⟨place, w, ⟨op, reply.answer, time, reply.time⟩, brokenBy host op reply.answer w⟩

theorem advance_of_brokenBy_eq_none {time : Nat} {op : RunOp} {next : op.Answer → Running α} {w : W}
    (h : brokenBy host op (respond host cancel time op w).answer w = none) :
    advance host cancel aborted time op next w =
      ⟨(respond host cancel time op w).time, next (respond host cancel time op w).answer,
        (respond host cancel time op w).world⟩ := by
  unfold advance
  split
  · rfl
  · next report hreport =>
    dsimp only
    by_cases hcut : op.wasCut (respond host cancel time op w).answer
    · rw [if_pos hcut]
    · rw [brokenBy, if_neg hcut, hreport] at h
      cases h

theorem advance_of_brokenBy_eq_some {time : Nat} {op : RunOp} {next : op.Answer → Running α} {w : W}
    {report : String}
    (h : brokenBy host op (respond host cancel time op w).answer w = some report) :
    advance host cancel aborted time op next w =
      ⟨(respond host cancel time op w).time, .done (aborted report),
        (respond host cancel time op w).world⟩ := by
  have hcut : op.wasCut (respond host cancel time op w).answer = false := by
    by_contra hcut
    rw [brokenBy, if_pos (by simpa using hcut)] at h
    cases h
  rw [brokenBy, hcut, if_neg (by decide)] at h
  unfold advance
  rw [h]
  dsimp only
  rw [hcut, if_neg (by decide)]

/-! ### One run alone -/

/-- What a run on its own does. -/
def eventsAlone (host : Host W) (cancel : Cancellation) : Running α → Nat → W → List Event
  | .done _, _, _ => []
  | .step op next, time, w =>
    let reply := respond host cancel time op w
    ⟨op, reply.answer, time, reply.time⟩ ::
      eventsAlone host cancel (next reply.answer) reply.time (host.pass reply.time reply.world)

theorem unfolds_eventsAlone (host : Host W) (cancel : Cancellation) (p : Running α) (time : Nat)
    (w : W) :
    Unfolds host cancel time p (eventsAlone host cancel p time w)
      (runAlone host cancel p time w).time (runAlone host cancel p time w).answer := by
  induction p generalizing time w with
  | done a => exact .done time a
  | step op next ih => exact .step rfl (ih _ _ _)

theorem world_advance (time : Nat) (op : RunOp) (next : op.Answer → Running α) (w : W) :
    (advance host cancel aborted time op next w).world = (respond host cancel time op w).world := by
  unfold advance
  split
  · rfl
  · dsimp only
    split <;> rfl

/-! ### All runs -/

/-- `Plays host cancel aborted strands turn time w log ended`: the strands go on one after
another until all are done, and `log` is what they did. -/
inductive Plays (host : Host W) (cancel : Cancellation) (aborted : String → α) :
    List (Strand α) → Nat → Nat → W → List (Entry W) → Timed W (List (Strand α)) → Prop
  | finished {strands : List (Strand α)} {turn time : Nat} {w : W} : nextStrand strands = none →
      Plays host cancel aborted strands turn time w [] ⟨time, strands, w⟩
  | step {strands : List (Strand α)} {turn time i : Nat} {w : W} {s : Strand α} {op : RunOp}
      {next : op.Answer → Running α} {reply : Timed W (Running α)} {log : List (Entry W)}
      {ended : Timed W (List (Strand α))} :
      nextStrand strands = some (i, s) → s.rest = .step op next →
      advance host cancel aborted s.due op next (host.pass s.due w) = reply →
      Plays host cancel aborted (strands.set i (s.resume turn reply.time reply.answer))
        (s.turnAfter turn reply.time) (max time reply.time) reply.world log ended →
      Plays host cancel aborted strands turn time w
        (.of host cancel i s.due op (host.pass s.due w) :: log) ended

/-- Runs side by side leave a log. -/
theorem plays_runTogether (host : Host W) (cancel : Cancellation) (aborted : String → α)
    (strands : List (Strand α)) (turn time : Nat) (w : W) :
    ∃ log, Plays host cancel aborted strands turn time w log
      (runTogether host cancel aborted strands turn time w) := by
  fun_induction runTogether host cancel aborted strands turn time w with
  | case1 strands turn time w hnone => exact ⟨[], .finished hnone⟩
  | case2 strands turn time w i s hnext a hdone =>
    exact absurd ⟨a, hdone⟩ (not_isDone_of_nextStrand hnext)
  | case3 strands turn time w i s hnext op next hstep reply ih =>
    obtain ⟨log, hlog⟩ := ih
    exact ⟨_, .step hnext hstep rfl hlog⟩

/-- The surroundings decide everything that runs side by side do. -/
theorem Plays.unique {strands : List (Strand α)} {turn time : Nat} {w : W}
    {log log' : List (Entry W)} {ended ended' : Timed W (List (Strand α))}
    (h : Plays host cancel aborted strands turn time w log ended)
    (h' : Plays host cancel aborted strands turn time w log' ended') :
    log = log' ∧ ended = ended' := by
  induction h generalizing log' with
  | finished hnone =>
    cases h' with
    | finished => exact ⟨rfl, rfl⟩
    | step hnext => cases hnone.symm.trans hnext
  | step hnext hstep hreply _ ih =>
    cases h' with
    | finished hnone => cases hnone.symm.trans hnext
    | step hnext' hstep' hreply' hrest' =>
      cases hnext.symm.trans hnext'
      cases hstep.symm.trans hstep'
      cases hreply.symm.trans hreply'
      obtain ⟨rfl, rfl⟩ := ih hrest'
      exact ⟨rfl, rfl⟩

/-- The log of strands that are done after so many operations, and their end. -/
def playFor (host : Host W) (cancel : Cancellation) (aborted : String → α) :
    (count : Nat) → List (Strand α) → (turn time : Nat) → W →
      Option (List (Entry W) × Timed W (List (Strand α)))
  | 0, strands, _, time, w =>
    match nextStrand strands with
    | none => some ([], ⟨time, strands, w⟩)
    | some _ => none
  | count + 1, strands, turn, time, w =>
    match nextStrand strands with
    | none => none
    | some (i, s) =>
      match s.rest with
      | .done _ => none
      | .step op next =>
        let found := host.pass s.due w
        let reply := advance host cancel aborted s.due op next found
        (playFor host cancel aborted count
          (strands.set i (s.resume turn reply.time reply.answer)) (s.turnAfter turn reply.time)
          (max time reply.time) reply.world).map fun (log, ended) =>
            (.of host cancel i s.due op found :: log, ended)

theorem plays_of_playFor {count : Nat} {strands : List (Strand α)} {turn time : Nat} {w : W}
    {log : List (Entry W)} {ended : Timed W (List (Strand α))}
    (h : playFor host cancel aborted count strands turn time w = some (log, ended)) :
    Plays host cancel aborted strands turn time w log ended := by
  induction count generalizing strands turn time w log ended with
  | zero =>
    rw [playFor] at h
    split at h
    · next hnone =>
      cases h
      exact .finished hnone
    · cases h
  | succ count ih =>
    rw [playFor] at h
    split at h
    · cases h
    · next i s hnext =>
      split at h
      · cases h
      · next op next hstep =>
        obtain ⟨⟨rest, ended'⟩, hrest, hlog⟩ := Option.map_eq_some_iff.mp h
        cases hlog
        exact .step hnext hstep rfl (ih hrest)

theorem Plays.length_ended {strands : List (Strand α)} {turn time : Nat} {w : W}
    {log : List (Entry W)} {ended : Timed W (List (Strand α))}
    (h : Plays host cancel aborted strands turn time w log ended) :
    ended.answer.length = strands.length := by
  induction h with
  | finished => rfl
  | step _ _ _ _ ih => rw [ih, List.length_set]

theorem Plays.place_lt {strands : List (Strand α)} {turn time : Nat} {w : W}
    {log : List (Entry W)} {ended : Timed W (List (Strand α))}
    (h : Plays host cancel aborted strands turn time w log ended) :
    ∀ entry ∈ log, entry.place < strands.length := by
  induction h with
  | finished => simp
  | @step strands turn time i w s _ _ _ _ _ hnext _ _ _ ih =>
    intro entry hentry
    rcases List.mem_cons.mp hentry with rfl | hrest
    · exact (List.getElem?_eq_some_iff.mp (getElem?_of_nextStrand hnext)).1
    · have hlt := ih entry hrest
      rwa [List.length_set] at hlt

/-- Every entry tells what the surroundings answered in the world that the operation found. -/
theorem Plays.exists_of {strands : List (Strand α)} {turn time : Nat} {w : W}
    {log : List (Entry W)} {ended : Timed W (List (Strand α))}
    (h : Plays host cancel aborted strands turn time w log ended) :
    ∀ entry ∈ log, ∃ place time op w, entry = .of host cancel place time op w := by
  induction h with
  | finished => simp
  | step _ _ _ _ ih => exact List.forall_mem_cons.mpr ⟨⟨_, _, _, _, rfl⟩, ih⟩

/-- What holds at first and is kept by every operation of the log and by the passing of time
holds whenever an operation finds the world, and when all runs are over. -/
theorem Plays.invariant {P : W → Prop} {C : Entry W → Prop}
    (hpass : ∀ time w, P w → P (host.pass time w))
    (hstep : ∀ place time op w, C (.of host cancel place time op w) → P w →
      P (respond host cancel time op w).world)
    {strands : List (Strand α)} {turn time : Nat} {w : W} {log : List (Entry W)}
    {ended : Timed W (List (Strand α))}
    (h : Plays host cancel aborted strands turn time w log ended) (hw : P w)
    (hlog : ∀ entry ∈ log, C entry) : (∀ entry ∈ log, P entry.found) ∧ P ended.world := by
  induction h with
  | finished => exact ⟨List.forall_mem_nil _, hw⟩
  | @step strands turn time i w s op next reply log ended _ _ hreply _ ih =>
    obtain ⟨hentry, hrest⟩ := List.forall_mem_cons.mp hlog
    have hfound : P (host.pass s.due w) := hpass _ _ hw
    have hworld : P reply.world := by
      rw [← hreply, world_advance]
      exact hstep _ _ _ _ hentry hfound
    obtain ⟨hfinds, hended⟩ := ih hworld hrest
    exact ⟨List.forall_mem_cons.mpr ⟨hfound, hfinds⟩, hended⟩

/-! ### One run of them -/

/-- `Follows host cancel aborted place time p entries finish a`: from `time` on the run `p` at
a place goes on as in `entries`, and at `finish` its result is `a`, be it that of a breakdown. -/
inductive Follows (host : Host W) (cancel : Cancellation) (aborted : String → α) (place : Nat) :
    Nat → Running α → List (Entry W) → Nat → α → Prop
  | done (time : Nat) (a : α) : Follows host cancel aborted place time (.done a) [] time a
  | step {time finish : Nat} {op : RunOp} {next : op.Answer → Running α} {w : W}
      {reply : Timed W op.Answer} {entries : List (Entry W)} {a : α} :
      respond host cancel time op w = reply → brokenBy host op reply.answer w = none →
      Follows host cancel aborted place reply.time (next reply.answer) entries finish a →
      Follows host cancel aborted place time (.step op next)
        (⟨place, w, ⟨op, reply.answer, time, reply.time⟩, none⟩ :: entries) finish a
  | broken {time : Nat} {op : RunOp} {next : op.Answer → Running α} {w : W}
      {reply : Timed W op.Answer} {report : String} :
      respond host cancel time op w = reply → brokenBy host op reply.answer w = some report →
      Follows host cancel aborted place time (.step op next)
        [⟨place, w, ⟨op, reply.answer, time, reply.time⟩, some report⟩] reply.time
        (aborted report)

theorem Follows.of_advance {place time finish : Nat} {op : RunOp} {next : op.Answer → Running α}
    {w : W} {entries : List (Entry W)} {a : α} {reply : Timed W (Running α)}
    (hreply : advance host cancel aborted time op next w = reply)
    (h : Follows host cancel aborted place reply.time reply.answer entries finish a) :
    Follows host cancel aborted place time (.step op next)
      (.of host cancel place time op w :: entries) finish a := by
  subst hreply
  cases hbroken : brokenBy host op (respond host cancel time op w).answer w with
  | none =>
    rw [advance_of_brokenBy_eq_none hbroken] at h
    simpa only [Entry.of, hbroken] using Follows.step rfl hbroken h
  | some report =>
    rw [advance_of_brokenBy_eq_some hbroken] at h
    cases h
    simpa only [Entry.of, hbroken] using Follows.broken rfl hbroken

/-- The part of a run in the log leads to its result. -/
theorem Plays.follows {strands : List (Strand α)} {turn time : Nat} {w : W}
    {log : List (Entry W)} {ended : Timed W (List (Strand α))}
    (h : Plays host cancel aborted strands turn time w log ended) :
    ∀ (i : Nat) (s : Strand α), strands[i]? = some s →
      ∃ finish a s', ended.answer[i]? = some s' ∧ s'.rest = .done a ∧
        Follows host cancel aborted i s.due s.rest (own i log) finish a := by
  induction h with
  | finished hnone =>
    intro i s hs
    obtain ⟨a, ha⟩ := isDone_of_nextStrand hnone s (List.mem_of_getElem? hs)
    exact ⟨s.due, a, s, hs, ha, ha ▸ .done _ _⟩
  | @step strands turn time i w s op next reply log ended hnext hstep hreply _ ih =>
    intro j t hj
    have hi := getElem?_of_nextStrand hnext
    have hlt : i < strands.length := (List.getElem?_eq_some_iff.mp hi).1
    -- the entry belongs to the strand that went on, the part of every other is as before
    by_cases hij : i = j
    · subst hij
      obtain rfl := Option.some.inj (hi.symm.trans hj)
      obtain ⟨finish, a, s', hs', hdone, hfollows⟩ := ih i _ (List.getElem?_set_self hlt)
      refine ⟨finish, a, s', hs', hdone, ?_⟩
      rw [hstep]
      have hown := own_cons_self (.of host cancel i s.due op (host.pass s.due w)) log
      rw [show (Entry.of host cancel i s.due op (host.pass s.due w)).place = i from rfl] at hown
      rw [hown]
      exact .of_advance hreply hfollows
    · rw [own_cons_of_ne hij]
      exact ih j t (by rw [List.getElem?_set_ne hij, hj])

/-- The strands with which runs are started at the same time. -/
def started (programs : List (Running α)) (time : Nat) : List (Strand α) :=
  programs.zipIdx.map fun (program, i) => ⟨time, i, program⟩

@[simp] theorem length_started (programs : List (Running α)) (time : Nat) :
    (started programs time).length = programs.length := by
  simp [started]

theorem getElem?_started (programs : List (Running α)) (time i : Nat) :
    (started programs time)[i]? = programs[i]?.map fun program => ⟨time, i, program⟩ := by
  simp [started, Function.comp_def]

theorem getElem?_results {ended : List (Strand α)} (h : ∀ s ∈ ended, s.IsDone) (i : Nat) :
    (ended.filterMap Strand.result?)[i]? = ended[i]?.bind Strand.result? := by
  induction ended generalizing i with
  | nil => simp
  | cons s rest ih =>
    obtain ⟨⟨a, ha⟩, hrest⟩ := List.forall_mem_cons.mp h
    have hresult : s.result? = some a := by
      rw [Strand.result?, ha]
    rw [List.filterMap_cons_some hresult]
    cases i with
    | zero => exact hresult.symm
    | succ i => exact ih hrest i

/-- Runs that are started at the same time go on as in the log and have these results. -/
def RunsBy (host : Host W) (cancel : Cancellation) (aborted : String → α)
    (programs : List (Running α)) (time : Nat) (w : W) (log : List (Entry W))
    (ended : Timed W (List α)) : Prop :=
  ∃ strands, Plays host cancel aborted (started programs time) programs.length time w log
      ⟨ended.time, strands, ended.world⟩ ∧ ended.answer = strands.filterMap Strand.result?

theorem exists_runsBy (host : Host W) (cancel : Cancellation) (aborted : String → α)
    (programs : List (Running α)) (time : Nat) (w : W) :
    ∃ log, RunsBy host cancel aborted programs time w log
      (runAll host cancel aborted programs time w) := by
  obtain ⟨log, hlog⟩ :=
    plays_runTogether host cancel aborted (started programs time) programs.length time w
  refine ⟨log, _, ?_, rfl⟩
  have hlength := length_started programs time
  unfold started at hlength
  simp only [runAll, hlength]
  exact hlog

/-- The part of a run in the log leads to its result. -/
theorem RunsBy.follows {programs : List (Running α)} {time : Nat} {w : W} {log : List (Entry W)}
    {ended : Timed W (List α)} (h : RunsBy host cancel aborted programs time w log ended) {i : Nat}
    {p : Running α} (hp : programs[i]? = some p) :
    ∃ finish a, ended.answer[i]? = some a ∧
      Follows host cancel aborted i time p (own i log) finish a := by
  obtain ⟨strands, hplays, hresults⟩ := h
  have hdone : ∀ s ∈ strands, s.IsDone := by
    intro s hs
    obtain ⟨j, hj⟩ := List.mem_iff_getElem?.mp hs
    have hlt : j < (started programs time).length := by
      rw [← hplays.length_ended]
      exact (List.getElem?_eq_some_iff.mp hj).1
    obtain ⟨-, a, s', hs', ha, -⟩ := hplays.follows j _ (List.getElem?_eq_getElem hlt)
    obtain rfl := Option.some.inj (hj.symm.trans hs')
    exact ⟨a, ha⟩
  obtain ⟨finish, a, s', hs', ha, hfollows⟩ := hplays.follows i ⟨time, i, p⟩ (by
    rw [getElem?_started, hp]
    rfl)
  refine ⟨finish, a, ?_, hfollows⟩
  rw [hresults, getElem?_results hdone, hs', Option.bind_some, Strand.result?, ha]

theorem RunsBy.place_lt {programs : List (Running α)} {time : Nat} {w : W} {log : List (Entry W)}
    {ended : Timed W (List α)} (h : RunsBy host cancel aborted programs time w log ended) :
    ∀ entry ∈ log, entry.place < programs.length := by
  obtain ⟨strands, hplays, -⟩ := h
  have hlt := hplays.place_lt
  rwa [length_started] at hlt

/-- The surroundings decide the log and the results. -/
theorem RunsBy.eq_runAll {programs : List (Running α)} {time : Nat} {w : W} {log : List (Entry W)}
    {ended : Timed W (List α)} (h : RunsBy host cancel aborted programs time w log ended) :
    ended = runAll host cancel aborted programs time w := by
  obtain ⟨log', strands', hplays', hresults'⟩ := exists_runsBy host cancel aborted programs time w
  obtain ⟨strands, hplays, hresults⟩ := h
  obtain ⟨-, hended⟩ := hplays.unique hplays'
  simp only [Timed.mk.injEq] at hended
  obtain ⟨htime, rfl, hworld⟩ := hended
  generalize runAll host cancel aborted programs time w = whole at htime hresults' hworld ⊢
  obtain ⟨t, answer, w'⟩ := ended
  obtain ⟨t', answer', w''⟩ := whole
  dsimp only at htime hworld hresults hresults'
  rw [htime, hworld, hresults, hresults']

end

end Jobflow.Run
