import Jobflow.Proofs.Run.Sources
import Jobflow.Proofs.Schedule.Polling
import Jobflow.Schedule.Loop

/-!
Polling until it is stopped. Polls begin one after another and only before the stop; each
of them settles its batch to the end. Over the whole loop every offer that was ever
selected is selected once: its run came to an end and left exactly its attempt, or the
run was stopped and the offer is as it was.
-/

namespace Jobflow.Schedule

open Jobflow.Job (Attempt Job Selects StoreError)
open Jobflow.Run (Cancellation Host RunPlan Timed)

variable {W : Type}

/-- A poll of the loop, with the offers in the store before it and what it settled. -/
structure Poll (W : Type) where
  start : Nat
  before : W
  after : Timed W Polled
  jobs : List Job
  settlements : List Settlement

/-- `Polls host backlog plan config stop tick time w polls finish w'`: from `time` on, with
the next tick at `tick`, the loop makes these polls and no more. A poll begins at its tick
or when the poll before is over, if that comes before the stop; how the poll before ended
does not matter. -/
inductive Polls (host : Host W) (backlog : Backlog W) (plan : RunPlan) (config : Config)
    (stop : Nat) : Nat → Nat → W → List (Poll W) → Nat → W → Prop
  /-- stopped while it waits for the tick -/
  | waiting {tick time : Nat} {w : W} : stop ≤ max tick time →
      Polls host backlog plan config stop tick time w [] (max stop time)
        (host.pass (max stop time) w)
  /-- stopped during a poll -/
  | last {tick time : Nat} {w : W} {poll : Poll W} :
      poll.start < stop → poll.start = max tick time → poll.before = host.pass poll.start w →
      poll.after =
        pollOnce host backlog plan config.limit (some stop) poll.start poll.before →
      stop ≤ poll.after.time →
      Polls host backlog plan config stop tick time w [poll] poll.after.time poll.after.world
  | next {tick time finish : Nat} {w w' : W} {poll : Poll W} {rest : List (Poll W)} :
      poll.start < stop → poll.start = max tick time → poll.before = host.pass poll.start w →
      poll.after =
        pollOnce host backlog plan config.limit (some stop) poll.start poll.before →
      poll.after.time < stop →
      Polls host backlog plan config stop (nextTick config.interval tick poll.start)
        poll.after.time poll.after.world rest finish w' →
      Polls host backlog plan config stop tick time w (poll :: rest) finish w'

/-- What a poll of the loop comes to: the store could not be read and nothing was selected,
or the batch was settled. -/
inductive Poll.Accounts (host : Host W) (backlog : Backlog W) (holds : W → List Job → Prop)
    (plan : RunPlan) (limit stop : Nat) (poll : Poll W) : Prop
  | unreadable {e : StoreError} : poll.after.answer.result = .error e → poll.settlements = [] →
      Poll.Accounts host backlog holds plan limit stop poll
  | settled : SettlesBatch host backlog holds plan limit (some stop)
        (poll.start + (backlog.pending limit poll.before).delay)
        (backlog.pending limit poll.before).world poll.jobs poll.settlements poll.after →
      Poll.Accounts host backlog holds plan limit stop poll

/-- A selected offer when the loop is over: its run came to an end and exactly the attempt
that fits it was recorded, or its run was told to stop after the stop and nothing was
recorded. A run whose workflow had come to its end is not among the stopped ones. -/
inductive AllOrNothing (plan : RunPlan) (stop : Nat) (s : Settlement) : Prop
  | completed {attempt : Attempt} : s.ending ≠ .stopped →
      s.ending.result ≠ .error (.workflow .cancelled) → Fits s.ending (some attempt) →
      s.fate = .recorded attempt → AllOrNothing plan stop s
  | stopped {event : Run.Event} : s.ending = .stopped → event ∈ s.events → event.stops →
      stop ≤ event.answered → (∀ ended, ¬ Run.Course plan s.job s.events (.finished ended)) →
      s.fate = .stopped → AllOrNothing plan stop s

section

variable {host : Host W} {backlog : Backlog W} {holds : W → List Job → Prop} {plan : RunPlan}

/-! ### One poll -/

theorem Settles.not_refused (hkeeps : backlog.Keeps host holds) (haccepts : backlog.Accepts holds)
    {time finish : Nat} {w w' : W} {settlements : List Settlement}
    (h : Settles backlog time w settlements finish w') {jobs : List Job}
    (hids : (jobs.map Job.id).Nodup) (hw : holds w jobs)
    (hjobs : ∀ s ∈ settlements, s.job.id ∈ jobs.map Job.id) :
    ∀ s ∈ settlements, ∀ attempt cause, s.fate ≠ .refused attempt cause := by
  induction h generalizing jobs with
  | nil => simp
  | @stopped time finish w w' s rest hfate _ ih =>
    have hrest := ih hids hw fun t ht => hjobs t (by simp [ht])
    intro t ht attempt cause
    rcases List.mem_cons.mp ht with rfl | ht
    · rw [hfate]
      exact nofun
    · exact hrest t ht attempt cause
  | @recorded time finish w w' s rest attempt status reply hfate hdate hreply hanswer _ ih =>
    subst hreply
    have hsame : (jobs.map s.change).map Job.id = jobs.map Job.id := Job.map_id_map s.change_id
    have hrest := ih (by rwa [hsame]) (hkeeps.recorded hids hw hfate hdate hanswer)
      fun t ht => by rw [hsame]; exact hjobs t (by simp [ht])
    intro t ht attempt cause
    rcases List.mem_cons.mp ht with rfl | ht
    · rw [hfate]
      exact nofun
    · exact hrest t ht attempt cause
  | @refused time finish w w' s rest attempt cause reply _ _ hreply hanswer _ _ =>
    subst hreply
    obtain ⟨job, hjob, hid⟩ := List.mem_map.mp (hjobs s (by simp))
    rw [← hid] at hanswer
    exact absurd hanswer (haccepts _ _ (hkeeps.now hw time) job hjob attempt cause)

/-- A run that was not stopped leaves an attempt to record. -/
theorem Settlement.Sound.fate_ne_stopped (hsources : host.NeverCancels) {cancel : Cancellation}
    {start : Nat} {s : Settlement} (h : s.Sound host cancel plan start)
    (hending : s.ending ≠ .stopped) : s.fate ≠ .stopped := by
  have hresult := h.runs.result_ne_cancelled hsources hending
  have hfits := h.fits
  intro hfate
  rw [hfate] at hfits
  generalize s.ending = ending at hfits hresult
  cases hfits with
  | stopped hstopped => exact hresult hstopped

theorem Settlement.Sound.allOrNothing (hsources : host.NeverCancels) {stop start : Nat}
    {s : Settlement} (h : s.Sound host (some stop) plan start)
    (haccepted : ∀ attempt cause, s.fate ≠ .refused attempt cause) :
    AllOrNothing plan stop s ∧ (s.ending = .stopped → stop ≤ s.finish) := by
  by_cases hending : s.ending = .stopped
  · have hruns := h.runs
    have hfits := h.fits
    rw [hending] at hruns hfits
    obtain ⟨_, hstop, event, hevent, hstops, hle, hfinish⟩ := hruns.stops
    cases hstop
    have hunfinished : ∀ ended, ¬ Run.Course plan s.job s.events (.finished ended) := by
      intro ended hfinished
      cases hruns.course.unique hfinished
    have hfate : s.fate = .stopped := by
      generalize s.fate = fate at hfits
      cases fate with
      | stopped => rfl
      | recorded => cases hfits
      | refused => cases hfits
    exact ⟨.stopped hending hevent hstops hle hunfinished hfate, fun _ => Nat.le_trans hle hfinish⟩
  · have hresult := h.runs.result_ne_cancelled hsources hending
    refine ⟨?_, fun hstopped => absurd hstopped hending⟩
    cases hfate : s.fate with
    | stopped => exact absurd hfate (h.fate_ne_stopped hsources hending)
    | recorded attempt =>
      have hfits := h.fits
      rw [hfate] at hfits
      exact .completed hending hresult hfits hfate
    | refused attempt cause => exact absurd hfate (haccepted attempt cause)

theorem SettlesBatch.allOrNothing (hkeeps : backlog.Keeps host holds)
    (hsources : host.NeverCancels) (haccepts : backlog.Accepts holds) {limit stop start : Nat}
    {found : W} {jobs : List Job} {settlements : List Settlement} {polled : Timed W Polled}
    (h : SettlesBatch host backlog holds plan limit (some stop) start found jobs settlements polled)
    (hids : (jobs.map Job.id).Nodup) :
    ∀ s ∈ settlements, AllOrNothing plan stop s ∧ (s.ending = .stopped → stop ≤ polled.time) := by
  obtain ⟨hw, hsettles⟩ := h.settles
  have hjobs : ∀ s ∈ settlements, s.job.id ∈ jobs.map Job.id := fun s hs =>
    List.mem_map_of_mem (h.selects.pending s.job (List.mem_map_of_mem hs)).1
  have haccepted := hsettles.not_refused hkeeps haccepts hids hw hjobs
  intro s hs
  obtain ⟨hsound, hfinish⟩ := h.sound s hs
  obtain ⟨hall, hstop⟩ := hsound.allOrNothing hsources (haccepted s hs)
  refine ⟨hall, ?_⟩
  intro hending
  have hle := hstop hending
  omega

/-! ### All polls -/

/-- The offers of these settlements are different ones of the list, and pending. -/
structure SelectsOnce (jobs : List Job) (settlements : List Settlement) : Prop where
  nodup : (settlements.map fun s => s.job.id).Nodup
  pending : ∀ s ∈ settlements,
    s.job ∈ jobs ∧ s.job.shouldApply = true ∧ s.job.isApplied = false

theorem SettlesBatch.selectsOnce {limit start : Nat} {cancel : Cancellation} {found : W}
    {jobs : List Job} {settlements : List Settlement} {polled : Timed W Polled}
    (h : SettlesBatch host backlog holds plan limit cancel start found jobs settlements polled)
    (hids : (jobs.map Job.id).Nodup) : SelectsOnce jobs settlements where
  nodup := by
    have hnodup := h.selects.nodup hids
    rwa [List.map_map] at hnodup
  pending s hs := h.selects.pending s.job (List.mem_map_of_mem hs)

theorem SelectsOnce.becomes {jobs : List Job} {settlements : List Settlement}
    (h : SelectsOnce jobs settlements) (hids : (jobs.map Job.id).Nodup) {job : Job}
    (hjob : job ∈ jobs) : Becomes settlements job (afterAll settlements job) := by
  apply becomes_afterAll h.nodup
  intro s hs hid
  exact List.inj_on_of_nodup_map hids (h.pending s hs).1 hjob hid

/-- An offer that is pending after a batch whose attempts were all recorded did not take
part in it. -/
theorem SelectsOnce.untouched {jobs : List Job} {settlements : List Settlement}
    (h : SelectsOnce jobs settlements) (hids : (jobs.map Job.id).Nodup)
    (hrecorded : ∀ s ∈ settlements, ∃ attempt, s.fate = .recorded attempt) {job : Job}
    (hjob : job ∈ jobs.map (afterAll settlements)) (hshould : job.shouldApply = true) :
    job ∈ jobs ∧ ∀ s ∈ settlements, s.job.id ≠ job.id := by
  obtain ⟨before, hbefore, rfl⟩ := List.mem_map.mp hjob
  have hbecomes := h.becomes hids hbefore
  generalize afterAll settlements before = after at hbecomes hshould
  cases hbecomes with
  | attempted => cases hshould
  | untouched hnone =>
    refine ⟨hbefore, ?_⟩
    intro s hs hid
    obtain ⟨attempt, hfate⟩ := hrecorded s hs
    have hsame : s.job = before := List.inj_on_of_nodup_map hids (h.pending s hs).1 hbefore hid
    exact hnone s hs hsame attempt hfate

/-- Selections from what a batch of recorded attempts has left are selections of the whole. -/
theorem SelectsOnce.append {jobs : List Job} {first second : List Settlement}
    (hfirst : SelectsOnce jobs first) (hids : (jobs.map Job.id).Nodup)
    (hrecorded : ∀ s ∈ first, ∃ attempt, s.fate = .recorded attempt)
    (hsecond : SelectsOnce (jobs.map (afterAll first)) second) :
    SelectsOnce jobs (first ++ second) := by
  have huntouched : ∀ s ∈ second, s.job ∈ jobs ∧ ∀ t ∈ first, t.job.id ≠ s.job.id := by
    intro s hs
    obtain ⟨hjob, hshould, -⟩ := hsecond.pending s hs
    exact hfirst.untouched hids hrecorded hjob hshould
  constructor
  · rw [List.map_append, List.nodup_append]
    refine ⟨hfirst.nodup, hsecond.nodup, ?_⟩
    intro _ hfirstId _ hsecondId
    obtain ⟨t, ht, rfl⟩ := List.mem_map.mp hfirstId
    obtain ⟨s, hs, rfl⟩ := List.mem_map.mp hsecondId
    exact (huntouched s hs).2 t ht
  · intro s hs
    rcases List.mem_append.mp hs with hs | hs
    · exact hfirst.pending s hs
    · exact ⟨(huntouched s hs).1, (hsecond.pending s hs).2⟩

@[simp] theorem afterAll_id (settlements : List Settlement) (job : Job) :
    (afterAll settlements job).id = job.id := by
  induction settlements generalizing job with
  | nil => rfl
  | cons s rest ih => rw [afterAll_cons, Function.comp_apply, ih, Settlement.change_id]

/-- All selections of a list of polls. -/
def selections (polls : List (Poll W)) : List Settlement := polls.flatMap Poll.settlements

/-- What the loop comes to: every poll accounts for its batch, every offer is selected once
at most and settled completely, and the store holds what the settlements have made of the
offers. -/
structure LoopSettles (host : Host W) (backlog : Backlog W) (holds : W → List Job → Prop)
    (plan : RunPlan) (limit stop : Nat) (jobs : List Job) (polls : List (Poll W)) (w : W) :
    Prop where
  accounts : ∀ poll ∈ polls,
    holds poll.before poll.jobs ∧ poll.Accounts host backlog holds plan limit stop
  once : SelectsOnce jobs (selections polls)
  settled : ∀ s ∈ selections polls, AllOrNothing plan stop s
  store : holds w (jobs.map (afterAll (selections polls)))

theorem loopSettles_nil {limit stop : Nat} {jobs : List Job} {w : W} (hw : holds w jobs) :
    LoopSettles host backlog holds plan limit stop jobs [] w where
  accounts := by simp
  once := ⟨by simp [selections], by simp [selections]⟩
  settled := by simp [selections]
  store := by rwa [selections, List.flatMap_nil, afterAll_nil, List.map_id]

theorem LoopSettles.cons {limit stop : Nat} {jobs : List Job} {poll : Poll W}
    {rest : List (Poll W)} {w : W} (hids : (jobs.map Job.id).Nodup)
    (hbefore : holds poll.before poll.jobs)
    (haccounts : poll.Accounts host backlog holds plan limit stop)
    (honce : SelectsOnce jobs poll.settlements)
    (hsettled : ∀ s ∈ poll.settlements, AllOrNothing plan stop s)
    (hrecorded : rest ≠ [] → ∀ s ∈ poll.settlements, ∃ attempt, s.fate = .recorded attempt)
    (hrest : LoopSettles host backlog holds plan limit stop
      (jobs.map (afterAll poll.settlements)) rest w) :
    LoopSettles host backlog holds plan limit stop jobs (poll :: rest) w := by
  have hselections : selections (poll :: rest) = poll.settlements ++ selections rest :=
    List.flatMap_cons
  constructor
  · intro other hother
    rcases List.mem_cons.mp hother with rfl | hother
    · exact ⟨hbefore, haccounts⟩
    · exact hrest.accounts other hother
  · rw [hselections]
    by_cases hempty : rest = []
    · subst hempty
      simpa [selections] using honce
    · exact honce.append hids (hrecorded hempty) hrest.once
  · intro s hs
    rw [hselections] at hs
    rcases List.mem_append.mp hs with hs | hs
    · exact hsettled s hs
    · exact hrest.settled s hs
  · have hstore := hrest.store
    rw [List.map_map] at hstore
    rw [hselections]
    convert hstore using 2
    funext job
    exact afterAll_append ..

/-- The counters after polls. -/
def countAll (counters : Counters) (polls : List (Poll W)) : Counters :=
  polls.foldl (fun counters poll => counters.add poll.after.answer.counters) counters

/-- One poll of the loop, whatever comes of it. -/
theorem exists_poll (hkeeps : backlog.Keeps host holds) (hsources : host.NeverCancels)
    (haccepts : backlog.Accepts holds) (plan : RunPlan) (limit stop start : Nat) {w : W}
    {jobs : List Job} (hids : (jobs.map Job.id).Nodup) (hw : holds w jobs) :
    ∃ settlements,
      let poll : Poll W := ⟨start, w, pollOnce host backlog plan limit (some stop) start w, jobs,
        settlements⟩
      poll.Accounts host backlog holds plan limit stop ∧ SelectsOnce jobs settlements ∧
      (∀ s ∈ settlements,
        AllOrNothing plan stop s ∧ (s.ending = .stopped → stop ≤ poll.after.time)) ∧
      holds poll.after.world (jobs.map (afterAll settlements)) := by
  cases hpending : (backlog.pending limit w).answer with
  | error e =>
    have hpoll : pollOnce host backlog plan limit (some stop) start w =
        ⟨start + (backlog.pending limit w).delay, ⟨.error e, .zero⟩,
          (backlog.pending limit w).world⟩ := by
      simp only [pollOnce, Run.Delayed.from, hpending]
    refine ⟨[], .unreadable (by rw [hpoll]) rfl, ⟨by simp, by simp⟩, by simp, ?_⟩
    rw [hpoll, afterAll_nil, List.map_id]
    exact hkeeps.pending_world hw limit
  | ok batch =>
    obtain ⟨settlements, -, hholds, hsettles⟩ :=
      pollOnce_settles hkeeps plan limit (some stop) start hids hw hpending
    exact ⟨settlements, .settled hsettles, hsettles.selectsOnce hids,
      hsettles.allOrNothing hkeeps hsources haccepts hids, hholds⟩

theorem AllOrNothing.recorded {stop : Nat} {s : Settlement} (h : AllOrNothing plan stop s)
    (hending : s.ending ≠ .stopped) : ∃ attempt, s.fate = .recorded attempt := by
  cases h with
  | completed _ _ _ hfate => exact ⟨_, hfate⟩
  | stopped hstopped => exact absurd hstopped hending

theorem pollUntil_settles (hkeeps : backlog.Keeps host holds) (hsources : host.NeverCancels)
    (haccepts : backlog.Accepts holds) (plan : RunPlan) (config : Config) (stop tick time : Nat)
    (counters : Counters) (w : W) :
    ∀ jobs : List Job, (jobs.map Job.id).Nodup → holds w jobs →
      let ended := pollUntil host backlog plan config stop tick time counters w
      ∃ polls, Polls host backlog plan config stop tick time w polls ended.time ended.world ∧
        ended.answer = countAll counters polls ∧
        LoopSettles host backlog holds plan config.limit stop jobs polls ended.world := by
  fun_induction pollUntil host backlog plan config stop tick time counters w with
  | case1 tick time counters w start hover =>
    intro jobs hids hw
    exact ⟨[], .waiting hover, rfl, loopSettles_nil ((hkeeps.steady jobs).pass hw)⟩
  | case2 tick time counters w start hstart polled counters' hover =>
    intro jobs hids hw
    have hbefore : holds (host.pass start w) jobs := (hkeeps.steady jobs).pass hw
    obtain ⟨settlements, haccounts, honce, hsettled, hafter⟩ :=
      exists_poll hkeeps hsources haccepts plan config.limit stop start hids hbefore
    let poll : Poll W := ⟨start, host.pass start w, polled, jobs, settlements⟩
    have hpolls : Polls host backlog plan config stop tick time w [poll] polled.time polled.world :=
      .last (Nat.lt_of_not_le hstart) rfl rfl rfl hover
    refine ⟨[poll], hpolls, rfl, ?_⟩
    apply LoopSettles.cons hids hbefore haccounts honce _ _ (loopSettles_nil hafter)
    · intro s hs
      exact (hsettled s hs).1
    · intro hne
      contradiction
  | case3 tick time counters w start hstart polled counters' hgoes ih =>
    intro jobs hids hw
    have hbefore : holds (host.pass start w) jobs := (hkeeps.steady jobs).pass hw
    obtain ⟨settlements, haccounts, honce, hsettled, hafter⟩ :=
      exists_poll hkeeps hsources haccepts plan config.limit stop start hids hbefore
    have hids' : ((jobs.map (afterAll settlements)).map Job.id).Nodup := by
      rwa [Job.map_id_map (afterAll_id settlements)]
    obtain ⟨rest, hpolls, hcounters, hrest⟩ := ih _ hids' hafter
    let poll : Poll W := ⟨start, host.pass start w, polled, jobs, settlements⟩
    have hgoesOn : polled.time < stop := Nat.lt_of_not_le hgoes
    refine ⟨poll :: rest, .next (Nat.lt_of_not_le hstart) rfl rfl rfl hgoesOn hpolls, hcounters, ?_⟩
    apply LoopSettles.cons hids hbefore haccounts honce _ _ hrest
    · intro s hs
      exact (hsettled s hs).1
    · intro _ s hs
      -- a stopped run would have taken the poll past the stop, and no poll would follow
      obtain ⟨hall, hstopped⟩ := hsettled s hs
      apply hall.recorded
      intro hending
      exact hgoes (hstopped hending)

/-- Shutdown is all or nothing for each offer of a store whose offers have distinct identifiers.
Polls begin only before the stop and one after another, whatever came of the poll before. Every
offer is selected once at most; either its run came to an end and the offer has exactly the
attempt that fits it, or the run was told to stop and the offer is as it was. -/
theorem pollUntil_all_or_nothing (hkeeps : backlog.Keeps host holds)
    (hsources : host.NeverCancels) (haccepts : backlog.Accepts holds) (plan : RunPlan)
    (config : Config) (stop tick time : Nat) (counters : Counters) (w : W) (jobs : List Job)
    (hids : (jobs.map Job.id).Nodup) (hw : holds w jobs) :
    let ended := pollUntil host backlog plan config stop tick time counters w
    ∃ polls jobs',
      Polls host backlog plan config stop tick time w polls ended.time ended.world ∧
      (∀ poll ∈ polls,
        holds poll.before poll.jobs ∧
        poll.Accounts host backlog holds plan config.limit stop) ∧
      ended.answer = countAll counters polls ∧
      SelectsOnce jobs (selections polls) ∧
      (∀ s ∈ selections polls, AllOrNothing plan stop s ∧ s.change s.job ∈ jobs') ∧
      holds ended.world jobs' ∧
      List.Forall₂ (Becomes (selections polls)) jobs jobs' := by
  obtain ⟨polls, hpolls, hcounters, hloop⟩ :=
    pollUntil_settles hkeeps hsources haccepts plan config stop tick time counters w jobs hids hw
  refine ⟨polls, _, hpolls, hloop.accounts, hcounters, hloop.once,
    fun s hs => ⟨hloop.settled s hs, ?_⟩, hloop.store, ?_⟩
  · rw [← afterAll_of_mem hloop.once.nodup hs rfl]
    exact List.mem_map_of_mem (hloop.once.pending s hs).1
  · rw [List.forall₂_map_right_iff, List.forall₂_same]
    exact fun job hjob => hloop.once.becomes hids hjob

end

theorem pollUntil_all_or_nothing_two :
    let ended := pollUntil exitingStage.host exitingStage.memoryBacklog ⟨.standard, .unknown, false⟩
      ⟨60000, 1⟩ 5 0 0 .zero twoPending
    ∃ polls jobs',
      Polls exitingStage.host exitingStage.memoryBacklog ⟨.standard, .unknown, false⟩
        ⟨60000, 1⟩ 5 0 0 twoPending polls ended.time ended.world ∧
      (∀ poll ∈ polls,
        Holds [] poll.before poll.jobs ∧
        poll.Accounts exitingStage.host exitingStage.memoryBacklog (Holds [])
          ⟨.standard, .unknown, false⟩ 1 5) ∧
      ended.answer = countAll .zero polls ∧
      SelectsOnce [pendingOffer 2, pendingOffer 1] (selections polls) ∧
      (∀ s ∈ selections polls,
        AllOrNothing ⟨.standard, .unknown, false⟩ 5 s ∧ s.change s.job ∈ jobs') ∧
      Holds [] ended.world jobs' ∧
      List.Forall₂ (Becomes (selections polls)) [pendingOffer 2, pendingOffer 1] jobs' :=
  pollUntil_all_or_nothing (memoryBacklog_keeps exitingStage [])
    (Run.host_neverCancels trivial trivial) (memoryBacklog_accepts exitingStage List.not_mem_nil)
    ⟨.standard, .unknown, false⟩ ⟨60000, 1⟩ 5 0 0 .zero twoPending
    [pendingOffer 2, pendingOffer 1] (by decide) ⟨rfl, rfl, rfl⟩

end Jobflow.Schedule
