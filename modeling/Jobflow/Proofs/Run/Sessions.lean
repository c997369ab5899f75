import Jobflow.Proofs.Run.Chronicle

/-!
What a run does about its browser session. A run asks for at most one, calls it only while it
is open, and closes it once and last, however the workflow ends and whatever its surroundings
answer. This is a protocol of a few phases; that a run keeps to it is proved along the program,
and what a run did is read off the protocol.
-/

namespace Jobflow.Run

open Jobflow.Cookie (Jar)
open Jobflow.Job (Job)
open Jobflow.Page (PageError)
open Jobflow.Workflow (Browsing Command Context Ended FlowError)

/-- An operation of a run with its answer. -/
abbrev Exchange := (op : running.Op) × running.Answer op

/-! ### The protocol -/

/-- Where a run stands with its session. -/
inductive Phase where
  /-- none was asked for -/
  | outside
  /-- none was opened -/
  | refused
  | inside (session : SessionId)
  /-- the session is open, and its workflow is over -/
  | leaving (session : SessionId)
  | closed (session : SessionId)

namespace Phase

/-- Whether an operation has its place in a phase. -/
def Allows : Phase → RunOp → Prop
  | .outside, .workflow _ | .outside, .isCancelled | .outside, .loadCookies _ => True
  | .outside, .openSession _ => True
  | .inside _, .isCancelled => True
  | .inside session, .browse on _ => on = session
  | .inside session, .exportCookies on => on = session
  | .inside session, .closeSession on => on = session
  | .leaving _, .saveCookies .. => True
  | .leaving session, .closeSession on => on = session
  | _, _ => False

/-- The phase after an operation. -/
def after (phase : Phase) : (op : RunOp) → op.Answer → Phase
  | .openSession _, .error _ => .refused
  | .openSession _, .ok session => .inside session
  | .exportCookies session, _ => .leaving session
  | .closeSession session, _ => .closed session
  | _, _ => phase

/-- The number of open sessions. -/
def opened : Phase → Nat
  | .inside _ | .leaving _ => 1
  | _ => 0

/-- The phase of a run that has nothing left to do about its session. -/
def IsOver (phase : Phase) : Prop := phase.opened = 0

end Phase

/-- `Path phase trace phase'`: the operations of `trace` lead from one phase to the other, and
each of them has its place. -/
inductive Path : Phase → List Exchange → Phase → Prop
  | nil (phase : Phase) : Path phase [] phase
  | cons {phase last : Phase} {op : RunOp} {answer : op.Answer} {trace : List Exchange} :
      phase.Allows op → Path (phase.after op answer) trace last →
      Path phase (⟨op, answer⟩ :: trace) last

/-- From a phase on, a program performs operations that have their place, and phase and result
at its end are related by `Q`. -/
def Obeys {α : Type} (Q : Phase → α → Prop) (phase : Phase) : Running α → Prop
  | .done a => Q phase a
  | .step op next =>
    phase.Allows op ∧ ∀ answer : op.Answer, Obeys Q (phase.after op answer) (next answer)

section
variable {W α β : Type}

theorem Obeys.bind {Q : Phase → α → Prop} {R : Phase → β → Prop} {phase : Phase} {p : Running α}
    {f : α → Running β} (hp : Obeys Q phase p) (hf : ∀ last a, Q last a → Obeys R last (f a)) :
    Obeys R phase (p >>= f) := by
  induction p generalizing phase with
  | done a => exact hf phase a hp
  | step op next ih => exact ⟨hp.1, fun answer => ih answer (hp.2 answer)⟩

theorem obeys_pure {Q : Phase → α → Prop} {phase : Phase} {a : α} (h : Q phase a) :
    Obeys Q phase (pure a : Running α) := h

theorem Obeys.path {Q : Phase → α → Prop} {phase : Phase} {p : Running α} {trace : List Exchange}
    {a : α} (hp : Obeys Q phase p) (h : Program.Performs p trace a) :
    ∃ last, Path phase trace last ∧ Q last a := by
  induction h generalizing phase with
  | done a => exact ⟨phase, .nil phase, hp⟩
  | @step op next answer trace a _ ih =>
    obtain ⟨last, hpath, hlast⟩ := ih (hp.2 answer)
    exact ⟨last, .cons hp.1 hpath, hlast⟩

/-! ### Runs keep to it -/

theorem obeys_restored (keepsCookies : Bool) (site : String) :
    Obeys (fun phase _ => phase = .outside) .outside (restored keepsCookies site) := by
  unfold restored
  split
  · refine ⟨trivial, fun answer => ?_⟩
    cases answer <;> exact obeys_pure rfl
  · exact obeys_pure rfl

theorem obeys_drive (session : SessionId) (p : Browsing α) :
    Obeys (fun phase _ => phase = .inside session) (.inside session) (drive session p) := by
  induction p with
  | done a => exact obeys_pure rfl
  | step op next ih =>
    rw [drive]
    refine ⟨rfl, fun (answer : Option op.Answer) => ?_⟩
    cases answer with
    | none => exact obeys_pure rfl
    | some answer => exact ih answer

theorem obeys_executeIn (session : SessionId) (command : Command) (initial : Context) :
    Obeys (fun phase _ => phase = .inside session) (.inside session)
      (executeIn session command initial) := by
  refine ⟨trivial, fun (stopped : Bool) => ?_⟩
  cases stopped with
  | true => exact obeys_pure rfl
  | false => exact obeys_drive session _

theorem obeys_keepCookies (site : String) (session : SessionId) :
    Obeys (fun phase _ => phase = .leaving session) (.inside session)
      (keepCookies site session) := by
  refine ⟨rfl, fun (answer : Except PageError Jar) => ?_⟩
  cases answer with
  | error e => exact obeys_pure rfl
  | ok jar =>
    change Obeys _ (.leaving session) (if jar.cookies.isEmpty then _ else _)
    split
    · exact obeys_pure rfl
    · exact ⟨trivial, fun _ => obeys_pure rfl⟩

theorem obeys_leave (keepsCookies : Bool) (site : String) (session : SessionId)
    (ended : Option Ended) :
    Obeys (fun phase _ => phase = .closed session) (.inside session)
      (leave keepsCookies site session ended) := by
  have hclose {phase : Phase} (h : phase.Allows (.closeSession session)) :
      Obeys (fun phase _ => phase = .closed session) phase (do
        let _ ← closeSession session
        return ()) := ⟨h, fun _ => obeys_pure rfl⟩
  unfold leave
  split
  · apply (obeys_keepCookies site session).bind
    rintro last _ rfl
    exact hclose rfl
  · exact hclose rfl

/-- A run of a workflow asks for a session, and none is open at its end. -/
theorem obeys_runWorkflow (keepsCookies : Bool) (command : Command) (initial : Context) :
    Obeys (fun phase _ => phase = .refused ∨ ∃ session, phase = .closed session) .outside
      (runWorkflow keepsCookies command initial) := by
  apply (obeys_restored keepsCookies _).bind
  rintro last saved rfl
  refine ⟨trivial, fun (opened : Except PageError SessionId) => ?_⟩
  cases opened with
  | error e => exact obeys_pure (.inl rfl)
  | ok session =>
    apply (obeys_executeIn session command initial).bind
    rintro last ended rfl
    apply (obeys_leave keepsCookies _ session ended).bind
    rintro last _ rfl
    exact obeys_pure (.inr ⟨session, rfl⟩)

theorem obeys_runJob (plan : RunPlan) (job : Job) :
    Obeys (fun phase _ => phase.IsOver) .outside (runJob plan job) := by
  unfold runJob
  split
  · exact obeys_pure rfl
  · refine ⟨trivial, fun (found : Except FlowError Command) => ?_⟩
    cases found with
    | error e => exact obeys_pure rfl
    | ok command =>
      refine ⟨trivial, fun (stopped : Bool) => ?_⟩
      cases stopped with
      | true => exact obeys_pure rfl
      | false =>
        apply (obeys_runWorkflow plan.keepsCookies command _).bind
        rintro last result (rfl | ⟨session, rfl⟩) <;> exact obeys_pure rfl

/-! ### What a run did -/

/-- An operation that has nothing to do with a session. -/
def RunOp.IsOutside : RunOp → Prop
  | .isCancelled | .workflow _ | .loadCookies _ => True
  | _ => False

/-- An operation of the execution of a workflow in a session. -/
def RunOp.IsWithin (session : SessionId) : RunOp → Prop
  | .isCancelled => True
  | .browse on _ => on = session
  | _ => False

/-- An operation that keeps the cookies of a session. -/
def RunOp.IsKeeping (session : SessionId) : RunOp → Prop
  | .exportCookies on => on = session
  | .saveCookies .. => True
  | _ => False

/-- The cookies of a session are kept, if at all, and then it is closed. -/
def Leaves (session : SessionId) (trace : List Exchange) : Prop :=
  ∃ keeping closing, trace = keeping ++ [⟨.closeSession session, closing⟩] ∧
    ∀ exchange ∈ keeping, RunOp.IsKeeping session exchange.1

/-- A session is called, and then it is left for good. -/
def Visits (session : SessionId) (trace : List Exchange) : Prop :=
  ∃ within leaving, trace = within ++ leaving ∧
    (∀ exchange ∈ within, RunOp.IsWithin session exchange.1) ∧ Leaves session leaving

/-- A run asks for exactly one session: it does nothing more if none opens, and visits the
session that opens. -/
inductive OneSession : List Exchange → Prop
  | refused {before : List Exchange} {cookies : Option Jar} {e : PageError} :
      (∀ exchange ∈ before, RunOp.IsOutside exchange.1) →
      OneSession (before ++ [⟨.openSession cookies, .error e⟩])
  | opened {before visit : List Exchange} {cookies : Option Jar} {session : SessionId} :
      (∀ exchange ∈ before, RunOp.IsOutside exchange.1) → Visits session visit →
      OneSession (before ++ ⟨.openSession cookies, .ok session⟩ :: visit)

theorem leaves_closing (session : SessionId) (closing : Except PageError Unit) :
    Leaves session [⟨.closeSession session, closing⟩] := ⟨[], closing, rfl, List.forall_mem_nil _⟩

theorem Leaves.cons {session : SessionId} {exchange : Exchange} {trace : List Exchange}
    (hop : RunOp.IsKeeping session exchange.1) (h : Leaves session trace) :
    Leaves session (exchange :: trace) := by
  obtain ⟨keeping, closing, rfl, hkeeping⟩ := h
  exact ⟨exchange :: keeping, closing, rfl, List.forall_mem_cons.mpr ⟨hop, hkeeping⟩⟩

theorem Leaves.visits {session : SessionId} {trace : List Exchange} (h : Leaves session trace) :
    Visits session trace := ⟨[], trace, rfl, List.forall_mem_nil _, h⟩

theorem Visits.cons {session : SessionId} {exchange : Exchange} {trace : List Exchange}
    (hop : RunOp.IsWithin session exchange.1) (h : Visits session trace) :
    Visits session (exchange :: trace) := by
  obtain ⟨within, leaving, rfl, hwithin, hleaving⟩ := h
  exact ⟨exchange :: within, leaving, rfl, List.forall_mem_cons.mpr ⟨hop, hwithin⟩, hleaving⟩

theorem OneSession.cons {exchange : Exchange} {trace : List Exchange}
    (hop : RunOp.IsOutside exchange.1) (h : OneSession trace) : OneSession (exchange :: trace) := by
  cases h with
  | refused hbefore => exact .refused (List.forall_mem_cons.mpr ⟨hop, hbefore⟩)
  | opened hbefore hvisit => exact .opened (List.forall_mem_cons.mpr ⟨hop, hbefore⟩) hvisit

theorem Path.of_refused {trace : List Exchange} {last : Phase} (h : Path .refused trace last) :
    trace = [] := by
  cases h with
  | nil => rfl
  | @cons _ _ op _ _ hallows => cases op <;> cases hallows

theorem Path.of_closed {session : SessionId} {trace : List Exchange} {last : Phase}
    (h : Path (.closed session) trace last) : trace = [] := by
  cases h with
  | nil => rfl
  | @cons _ _ op _ _ hallows => cases op <;> cases hallows

theorem Path.leaves {session : SessionId} {trace : List Exchange} {last : Phase}
    (h : Path (.leaving session) trace last) (hlast : last.IsOver) : Leaves session trace := by
  generalize hphase : Phase.leaving session = phase at h
  induction h with
  | nil =>
    subst hphase
    cases hlast
  | @cons phase last op answer trace hallows hrest ih =>
    subst hphase
    cases op with
    | saveCookies => exact (ih hlast rfl).cons trivial
    | closeSession on =>
      obtain rfl : on = session := hallows
      have hclosed : Path (.closed on) trace last := hrest
      obtain rfl := hclosed.of_closed
      exact leaves_closing on answer
    | _ => cases hallows

theorem Path.visits {session : SessionId} {trace : List Exchange} {last : Phase}
    (h : Path (.inside session) trace last) (hlast : last.IsOver) : Visits session trace := by
  generalize hphase : Phase.inside session = phase at h
  induction h with
  | nil =>
    subst hphase
    cases hlast
  | @cons phase last op answer trace hallows hrest ih =>
    subst hphase
    cases op with
    | isCancelled => exact (ih hlast rfl).cons trivial
    | browse => exact (ih hlast rfl).cons hallows
    | exportCookies on =>
      obtain rfl : on = session := hallows
      have hleaves : Leaves on trace := Path.leaves hrest hlast
      have hop : RunOp.IsKeeping on (.exportCookies on) := rfl
      exact (hleaves.cons hop).visits
    | closeSession on =>
      obtain rfl : on = session := hallows
      have hclosed : Path (.closed on) trace last := hrest
      obtain rfl := hclosed.of_closed
      exact (leaves_closing on answer).visits
    | _ => cases hallows

/-- A run with nothing left to do about a session never asked for one, or asked for one. -/
theorem Path.outside_or_oneSession {trace : List Exchange} {last : Phase}
    (h : Path .outside trace last) (hlast : last.IsOver) :
    (∀ exchange ∈ trace, RunOp.IsOutside exchange.1) ∧ last = .outside ∨ OneSession trace := by
  generalize hphase : Phase.outside = phase at h
  induction h with
  | nil =>
    subst hphase
    exact .inl ⟨List.forall_mem_nil _, rfl⟩
  | @cons phase last op answer trace hallows hrest ih =>
    subst hphase
    have hcons (hop : op.IsOutside) (hafter : Phase.outside = Phase.outside.after op answer) :
        (∀ exchange ∈ (⟨op, answer⟩ : Exchange) :: trace, RunOp.IsOutside exchange.1) ∧
            last = .outside ∨ OneSession (⟨op, answer⟩ :: trace) := by
      rcases ih hlast hafter with ⟨houtside, rfl⟩ | hone
      · exact .inl ⟨List.forall_mem_cons.mpr ⟨hop, houtside⟩, hafter.symm⟩
      · exact .inr (hone.cons hop)
    cases op with
    | isCancelled => exact hcons trivial rfl
    | workflow => exact hcons trivial rfl
    | loadCookies => exact hcons trivial rfl
    | openSession cookies =>
      right
      cases answer with
      | error e =>
        obtain rfl := Path.of_refused hrest
        exact @OneSession.refused [] cookies e (List.forall_mem_nil _)
      | ok session =>
        have hvisits : Visits session trace := Path.visits hrest hlast
        exact @OneSession.opened [] trace cookies session (List.forall_mem_nil _) hvisits
    | _ => cases hallows

/-- Whatever it is answered and whenever it is stopped, the run of a workflow asks for exactly
one session, and closes it if it opens. -/
theorem oneSession_of_performs {keepsCookies : Bool} {command : Command} {initial : Context}
    {trace : List Exchange} {result : Except FlowError Context}
    (h : Program.Performs (runWorkflow keepsCookies command initial) trace result) :
    OneSession trace := by
  obtain ⟨last, hpath, hlast⟩ := (obeys_runWorkflow keepsCookies command initial).path h
  have hover : last.IsOver := by
    rcases hlast with rfl | ⟨session, rfl⟩ <;> rfl
  rcases hpath.outside_or_oneSession hover with ⟨-, rfl⟩ | hone
  · simp at hlast
  · exact hone

/-! ### Counting sessions -/

/-- The exchange opens a session. -/
def opens : Exchange → Bool
  | ⟨.openSession _, .ok _⟩ => true
  | _ => false

/-- The exchange closes a session. -/
def closes : Exchange → Bool
  | ⟨.closeSession _, _⟩ => true
  | _ => false

/-- One operation that has its place keeps the account of open sessions. -/
theorem Phase.opened_after {phase : Phase} {op : RunOp} (h : phase.Allows op) (answer : op.Answer) :
    phase.opened + (if opens ⟨op, answer⟩ then 1 else 0) =
      (phase.after op answer).opened + (if closes ⟨op, answer⟩ then 1 else 0) := by
  cases op with
  | openSession =>
    cases phase with
    | outside => cases answer <;> rfl
    | _ => cases h
  | _ => cases phase <;> first | rfl | cases h

theorem Path.countP_opens {phase last : Phase} {trace : List Exchange} (h : Path phase trace last) :
    phase.opened + trace.countP opens = last.opened + trace.countP closes := by
  induction h with
  | nil => rfl
  | @cons phase last op answer trace hallows _ ih =>
    have hone := Phase.opened_after hallows answer
    rw [List.countP_cons, List.countP_cons]
    omega

/-! ### Runs among others -/

/-- What a run among others did about sessions by its entries: it asked for none or for one; or
its surroundings broke down at an operation that had its place. -/
inductive KeepsToProtocol (entries : List (Entry W)) : Prop
  | whole {last : Phase} : (∀ entry ∈ entries, entry.report = none) →
      Path .outside (entries.map Entry.exchange) last → last.IsOver → KeepsToProtocol entries
  | brokenOff {first : List (Entry W)} {final : Entry W} {report : String} {last : Phase} :
      entries = first ++ [final] → (∀ entry ∈ first, entry.report = none) →
      final.report = some report → Path .outside (first.map Entry.exchange) last →
      last.Allows final.event.op → KeepsToProtocol entries

/-- The entries of a program that obeys the protocol follow it, up to a breakdown. -/
theorem Follows.path {host : Host W} {cancel : Cancellation} {aborted : String → α}
    {place time finish : Nat} {p : Running α} {entries : List (Entry W)} {a : α}
    {Q : Phase → α → Prop} {phase : Phase}
    (h : Follows host cancel aborted place time p entries finish a) (hp : Obeys Q phase p) :
    (∃ last, (∀ entry ∈ entries, entry.report = none) ∧
        Path phase (entries.map Entry.exchange) last ∧ Q last a) ∨
      ∃ first final report last, entries = first ++ [final] ∧
        (∀ entry ∈ first, entry.report = none) ∧ final.report = some report ∧
        Path phase (first.map Entry.exchange) last ∧ last.Allows final.event.op := by
  induction h generalizing phase with
  | done time a => exact .inl ⟨phase, List.forall_mem_nil _, .nil phase, hp⟩
  | @step time finish op next w reply entries a hreply hwhole _ ih =>
    rcases ih (hp.2 reply.answer) with
      ⟨last, hreports, hpath, hlast⟩ |
      ⟨first, final, report, last, rfl, hreports, hfinal, hpath, hplace⟩
    · exact .inl ⟨last, List.forall_mem_cons.mpr ⟨rfl, hreports⟩, .cons hp.1 hpath, hlast⟩
    · exact .inr ⟨_ :: first, final, report, last, rfl,
        List.forall_mem_cons.mpr ⟨rfl, hreports⟩, hfinal, .cons hp.1 hpath, hplace⟩
  | broken hreply hbroken =>
    exact .inr ⟨[], _, _, phase, rfl, List.forall_mem_nil _, rfl, .nil phase, hp.1⟩

theorem Follows.keepsToProtocol {host : Host W} {cancel : Cancellation}
    {aborted : String → Except RunError Context} {place time finish : Nat} {plan : RunPlan}
    {job : Job} {entries : List (Entry W)} {result : Except RunError Context}
    (h : Follows host cancel aborted place time (runJob plan job) entries finish result) :
    KeepsToProtocol entries := by
  rcases h.path (obeys_runJob plan job) with
    ⟨last, hreports, hpath, hlast⟩ |
    ⟨first, final, report, last, hentries, hreports, hfinal, hpath, hplace⟩
  · exact .whole hreports hpath hlast
  · exact .brokenOff hentries hreports hfinal hpath hplace

/-- The entry opens a session, which it does not if the surroundings break down instead. -/
def Entry.opens (entry : Entry W) : Bool := entry.report.isNone && Run.opens entry.exchange

def Entry.closes (entry : Entry W) : Bool := Run.closes entry.exchange

/-- An operation of a run that has no session yet. -/
def RunOp.IsBeforehand : RunOp → Prop
  | .workflow _ | .loadCookies _ | .openSession _ => True
  | _ => False

theorem KeepsToProtocol.outside_or_oneSession {entries : List (Entry W)}
    (h : KeepsToProtocol entries) (hreports : ∀ entry ∈ entries, entry.report = none) :
    (∀ entry ∈ entries, RunOp.IsOutside entry.event.op) ∨
      OneSession (entries.map Entry.exchange) := by
  cases h with
  | whole _ hpath hlast =>
    rcases hpath.outside_or_oneSession hlast with ⟨houtside, -⟩ | hone
    · exact .inl fun entry hentry => houtside _ (List.mem_map_of_mem hentry)
    · exact .inr hone
  | @brokenOff first final report last hentries _ hfinal _ _ =>
    have hmem : final ∈ entries := by simp [hentries]
    rw [hreports final hmem] at hfinal
    cases hfinal

private theorem countP_opens_of_whole {entries : List (Entry W)}
    (h : ∀ entry ∈ entries, entry.report = none) :
    entries.countP Entry.opens = (entries.map Entry.exchange).countP opens := by
  rw [List.countP_map]
  apply List.countP_congr
  intro entry hentry
  simp [Entry.opens, h entry hentry]

private theorem countP_closes (entries : List (Entry W)) :
    entries.countP Entry.closes = (entries.map Entry.exchange).countP closes := by
  rw [List.countP_map]
  rfl

/-- A run whose surroundings did not break down while it had a session open closes what it
opens. -/
theorem KeepsToProtocol.countP_opens {entries : List (Entry W)} (h : KeepsToProtocol entries)
    (hreports : ∀ entry ∈ entries, entry.report ≠ none → RunOp.IsBeforehand entry.event.op) :
    entries.countP Entry.opens = entries.countP Entry.closes := by
  cases h with
  | whole hwhole hpath hlast =>
    have hcounts := hpath.countP_opens
    rw [show Phase.outside.opened = 0 from rfl, show _ = 0 from hlast] at hcounts
    rw [countP_opens_of_whole hwhole, countP_closes]
    omega
  | @brokenOff first final report last hentries hwhole hfinal hpath hplace =>
    subst hentries
    have hbeforehand := hreports final (by simp) (by simp [hfinal])
    have hcounts := hpath.countP_opens
    have hlast : last.opened = 0 ∧ final.closes = false := by
      unfold Entry.closes Entry.exchange Event.exchange
      generalize final.event = event at hplace hbeforehand ⊢
      obtain ⟨op, answer, asked, answered⟩ := event
      cases op <;> first
        | exact False.elim hbeforehand
        | cases last <;> first
          | exact ⟨rfl, rfl⟩
          | exact False.elim hplace
    have hopens : final.opens = false := by simp [Entry.opens, hfinal]
    rw [List.countP_append, List.countP_append, countP_opens_of_whole hwhole, countP_closes,
      List.countP_singleton, List.countP_singleton, hopens, hlast.2]
    rw [show Phase.outside.opened = 0 from rfl, hlast.1] at hcounts
    omega

end

end Jobflow.Run
