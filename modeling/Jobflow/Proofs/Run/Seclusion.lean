import Jobflow.Proofs.Run.Scenes
import Jobflow.Proofs.Run.Sessions
import Jobflow.Proofs.Workflow.Library
import Jobflow.Proofs.Workflow.Names

/-!
Runs side by side share what they remember of the definitions, the files and the clock. Through
none of them does a run learn of the others: what is remembered of a directory is what a fresh
look at it would give, and the calls on a session are those of the run that opened it.
-/

namespace Jobflow.Rehearsal

open Jobflow.Files (Tree)
open Jobflow.Page (Behaviour)
open Jobflow.Run (Host SessionId)
open Jobflow.Workflow (Command FlowError Form Library Shelf)

variable {α : Type}

/-! ### Definitions -/

/-- The files of the definitions read the same in both trees. -/
def Definitions.SameFiles (source : Definitions α) (tree tree' : Tree) : Prop :=
  match source with
  | .given _ => True
  | .shelved shelf => ∀ name, ¬ Shelf.isUnsafe name →
      tree'.readText (shelf.pathFor name) = tree.readText (shelf.pathFor name)

theorem Definitions.SameFiles.get_eq {source : Definitions α} {tree tree' : Tree}
    (h : source.SameFiles tree tree') (kind name : String) (remembered : Dict α) :
    source.get kind name remembered tree' = source.get kind name remembered tree := by
  cases source with
  | given definitions => rfl
  | shelved shelf =>
    simp only [Definitions.get]
    cases hfound : Dict.find? name remembered with
    | some definition => rw [Shelf.consult_of_remembered hfound, Shelf.consult_of_remembered hfound]
    | none =>
      rw [Shelf.consult_of_new hfound, Shelf.consult_of_new hfound, Shelf.fresh_congr (h name)]

/-- Looking a definition up changes no later answer. -/
theorem Definitions.get_after_get (source : Definitions α) (kind name other : String)
    (remembered : Dict α) (tree : Tree) :
    (source.get kind other (source.get kind name remembered tree).2 tree).1 =
      (source.get kind other remembered tree).1 := by
  cases source with
  | given definitions =>
    simp only [Definitions.get]
    split <;> rfl
  | shelved shelf =>
    simp only [Definitions.get]
    cases hfound : Dict.find? name remembered with
    | some definition => rw [Shelf.consult_of_remembered hfound]
    | none =>
      rw [Shelf.consult_of_new hfound]
      cases hfresh : shelf.fresh name tree with
      | error e => rfl
      | ok definition =>
        -- only the definition that was read is new, and it is what the file says
        dsimp only [Shelf.kept]
        by_cases hname : other = name
        · subst hname
          rw [Shelf.consult_of_remembered (Dict.find?_insert_self _ _ _),
            Shelf.consult_of_new hfound, hfresh]
        · have hother := Dict.find?_insert_of_ne hname definition remembered
          cases hremembered : Dict.find? other remembered with
          | some kept =>
            rw [Shelf.consult_of_remembered hremembered,
              Shelf.consult_of_remembered (hother.trans hremembered)]
          | none =>
            rw [Shelf.consult_of_new hremembered, Shelf.consult_of_new (hother.trans hremembered)]

/-! ### Stages -/

namespace Stage

variable (stage : Stage)

/-- The workflow that is found under a name. -/
def commandAt (scene : Scene) (name : String) : Except FlowError Command :=
  (stage.workflows.get "workflow" name scene.workflows scene.tree).1

def formAt (scene : Scene) (id : String) : Except FlowError Form :=
  (stage.forms.get "form" id scene.forms scene.tree).1

/-- The files of the definitions read the same in both scenes. -/
def SameFiles (scene scene' : Scene) : Prop :=
  stage.workflows.SameFiles scene.tree scene'.tree ∧ stage.forms.SameFiles scene.tree scene'.tree

/-- What a later scene remembers of the definitions tells the same as the first. -/
structure Remembers (first scene : Scene) : Prop where
  workflows : ∀ name, (stage.workflows.get "workflow" name scene.workflows first.tree).1 =
    stage.commandAt first name
  forms : ∀ id, (stage.forms.get "form" id scene.forms first.tree).1 = stage.formAt first id

theorem remembers_refl (scene : Scene) : stage.Remembers scene scene :=
  ⟨fun _ => rfl, fun _ => rfl⟩

end Stage

end Jobflow.Rehearsal

namespace Jobflow.Run

open Jobflow.Page (Behaviour Call PageError)
open Jobflow.Rehearsal (Affects Scene Stage affects_respond)
open Jobflow.Workflow (Browse Command FlowError Form)

variable {α : Type} {stage : Stage} {pages : SessionId → Behaviour} {cancel : Cancellation}
  {aborted : String → α}

/-- The answer is the definition of that name. -/
def Informed (commands : String → Except FlowError Command)
    (forms : String → Except FlowError Form) : (op : RunOp) → op.Answer → Prop
  | .workflow name, found => found = commands name
  | .browse _ (.form id), some found => found = forms id
  | _, _ => True

theorem remembers_pass {first scene : Scene} (h : stage.Remembers first scene) (time : Nat) :
    stage.Remembers first (scene.pass time) := by
  obtain ⟨jobs, later, edits, hpass⟩ := scene.exists_pass time
  rw [hpass]
  exact ⟨h.workflows, h.forms⟩

/-- An operation that leaves both memories alone. -/
theorem remembers_of_eq {first scene scene' : Scene} (h : stage.Remembers first scene)
    (hworkflows : scene'.workflows = scene.workflows) (hforms : scene'.forms = scene.forms) :
    stage.Remembers first scene' := by
  constructor
  · rw [hworkflows]
    exact h.workflows
  · rw [hforms]
    exact h.forms

theorem remembers_of_affects {first scene scene' : Scene} {op : RunOp}
    (haffects : Affects stage scene op scene') (h : stage.Remembers first scene)
    (hfiles : stage.SameFiles first scene) : stage.Remembers first scene' := by
  cases haffects with
  | looked name =>
    refine ⟨fun other => ?_, h.forms⟩
    rw [hfiles.1.get_eq, stage.workflows.get_after_get]
    exact h.workflows other
  | formed session id =>
    refine ⟨h.workflows, fun other => ?_⟩
    rw [hfiles.2.get_eq, stage.forms.get_after_get]
    exact h.forms other
  | _ => exact remembers_of_eq h rfl rfl

/-- As long as the files of the definitions stay as they are, every run is answered with the
definitions that were there at the start, whoever asked before. -/
theorem Plays.informed {strands : List (Strand α)} {turn time : Nat} {scene : Scene}
    {log : List (Entry Scene)} {ended : Timed Scene (List (Strand α))}
    (h : Plays (stage.hostWith pages) cancel aborted strands turn time scene log ended)
    (hfiles : ∀ entry ∈ log, stage.SameFiles scene entry.found) :
    ∀ entry ∈ log,
      Informed (stage.commandAt scene) (stage.formAt scene) entry.event.op entry.event.answer := by
  obtain ⟨hremembers, -⟩ := h.invariant (P := stage.Remembers scene)
    (C := fun entry => stage.SameFiles scene entry.found)
    (fun time w hw => remembers_pass hw time)
    (fun place time op w hfiles hw =>
      remembers_of_affects (affects_respond stage pages cancel time op w) hw hfiles)
    (stage.remembers_refl scene) hfiles
  intro entry hentry
  have hremembered := hremembers entry hentry
  have hread := hfiles entry hentry
  obtain ⟨place, asked, op, found, rfl⟩ := h.exists_of entry hentry
  dsimp only [Entry.of] at hremembered hread ⊢
  cases op with
  | workflow name =>
    simp only [Informed, respond, Delayed.from, Stage.hostWith, Stage.host, Stage.workflow]
    rw [hread.1.get_eq]
    exact hremembered.workflows name
  | browse session op =>
    simp only [respond]
    split
    · cases op <;> trivial
    · cases op with
      | form id =>
        simp only [Informed, Stage.hostWith, Stage.browse]
        rw [hread.2.get_eq]
        exact hremembered.forms id
      | _ => trivial
  | _ => trivial

/-! ### Sessions -/

/-- The session that a run has or had. -/
def Phase.session? : Phase → Option SessionId
  | .inside session | .leaving session | .closed session => some session
  | _ => none

def RunOp.IsBrowse : RunOp → Prop
  | .browse .. => True
  | _ => False

/-- What the calls on the session of a run are after one of its operations: those of a page of
its own. -/
inductive Private (pages : SessionId → Behaviour) (forms : String → Except FlowError Form)
    (calls : List Call) : Exchange → List Call → Prop
  | browsed {session : SessionId} {op : Browse} {answer : op.Answer} {calls' : List Call} :
      Workflow.Serves (pages session) forms calls ⟨op, answer⟩ calls' →
      Private pages forms calls ⟨.browse session op, some answer⟩ calls'
  | opened {cookies : Option Cookie.Jar} {session : SessionId} :
      Private pages forms calls ⟨.openSession cookies, .ok session⟩ []
  | other {exchange : Exchange} : ¬ RunOp.IsBrowse exchange.1 → opens exchange = false →
      Private pages forms calls exchange calls

/-- The directory of a screenshot could be made. -/
def Made : (op : RunOp) → op.Answer → Prop
  | .browse _ (.makeDirectories _), some answer => answer = .ok ()
  | _, _ => True

theorem sessions_pass (scene : Scene) (time : Nat) :
    (scene.pass time).sessions = scene.sessions := by
  obtain ⟨jobs, later, edits, hpass⟩ := scene.exists_pass time
  rw [hpass]

/-- Without a stop, an operation of a workflow is always answered. -/
theorem respond_browse {W : Type} (host : Host W) (time : Nat) (session : SessionId) (op : Browse)
    (w : W) :
    respond host none time (.browse session op) w =
      ⟨time + (host.browse session op w).delay, some (host.browse session op w).answer,
        (host.browse session op w).world⟩ := by
  simp [respond, Cancellation.isDue]

theorem set_history (scene : Scene) (session : SessionId) :
    scene.sessions.set session (scene.history session) = scene.sessions := by
  apply List.ext_getElem?
  intro i
  by_cases hi : session = i
  · subst hi
    by_cases hlt : session < scene.sessions.length
    · rw [List.getElem?_set_self hlt]
      simp [Scene.history, hlt]
    · simp [hlt]
  · rw [List.getElem?_set_ne hi]

/-- An operation on a session changes the calls on that session only, and a page of its own
answers. -/
theorem sessions_browse {commands : String → Except FlowError Command}
    {forms : String → Except FlowError Form} (time : Nat) (session : SessionId) (op : Browse)
    (scene : Scene) :
    let reply := respond (stage.hostWith pages) none time (.browse session op) scene
    ∃ calls', reply.world.sessions = scene.sessions.set session calls' ∧
      (Informed commands forms (.browse session op) reply.answer →
        Made (.browse session op) reply.answer →
        Private pages forms (scene.history session) ⟨.browse session op, reply.answer⟩ calls') := by
  have hsame := set_history scene session
  dsimp only
  rw [respond_browse]
  cases op with
  | call call => exact ⟨_, rfl, fun _ _ => .browsed (.call call)⟩
  | clickAwaiting selector timeout next =>
    exact ⟨_, rfl, fun _ _ => .browsed (.clickAwaiting selector timeout next)⟩
  | clickSettling selector timeout =>
    exact ⟨_, rfl, fun _ _ => .browsed (.clickSettling selector timeout)⟩
  | sleep duration => exact ⟨_, hsame.symm, fun _ _ => .browsed (.sleep duration)⟩
  | form id =>
    refine ⟨_, hsame.symm, fun hinformed _ => ?_⟩
    rw [show ((stage.hostWith pages).browse session (.form id) scene).answer = forms id
      from hinformed]
    exact .browsed (.form id)
  | makeDirectories path =>
    refine ⟨_, Eq.trans ?_ hsame.symm, fun _ hmade => ?_⟩
    · simp only [Stage.hostWith, Stage.browse]
      split <;> rfl
    · rw [show ((stage.hostWith pages).browse session (.makeDirectories path) scene).answer = .ok ()
        from hmade]
      exact .browsed (.makeDirectories path)
  | freshName =>
    exact ⟨_, hsame.symm, fun _ _ => .browsed (.freshName ⟨_, rfl⟩)⟩

/-- The session that opens is a new one, without calls. -/
theorem sessions_open {cookies : Option Cookie.Jar} {time : Nat} {scene : Scene}
    {session : SessionId}
    (h : (respond (stage.hostWith pages) none time (.openSession cookies) scene).answer =
      .ok session) :
    session = scene.sessions.length ∧
      (respond (stage.hostWith pages) none time (.openSession cookies) scene).world.sessions =
        scene.sessions ++ [[]] := by
  simp only [respond, Delayed.from, Stage.hostWith, Stage.host, Stage.openSession] at h ⊢
  split at h
  · cases h
  · obtain rfl := Except.ok.inj h
    exact ⟨rfl, rfl⟩

/-- All other operations leave the calls on every session as they are. -/
theorem sessions_other {time : Nat} {op : RunOp} {scene : Scene} (hbrowse : ¬ op.IsBrowse)
    (hopens : opens ⟨op, (respond (stage.hostWith pages) none time op scene).answer⟩ = false) :
    (respond (stage.hostWith pages) none time op scene).world.sessions = scene.sessions := by
  have haffects := affects_respond stage pages none time op scene
  generalize (respond (stage.hostWith pages) none time op scene).world = scene' at haffects ⊢
  cases haffects with
  | called => exact absurd trivial hbrowse
  | opened hlaunch =>
    simp only [respond, Delayed.from, Stage.hostWith, Stage.host,
      Rehearsal.answer_openSession hlaunch] at hopens
    cases hopens
  | _ => rfl

/-- What is known of the sessions while the run at a place has made `calls` on its own. -/
structure Seated (phases : Nat → Phase) (place : Nat) (calls : List Call) (scene : Scene) :
    Prop where
  opened : ∀ i session, (phases i).session? = some session → session < scene.sessions.length
  apart : ∀ i j session, (phases i).session? = some session → (phases j).session? = some session →
    i = j
  history : ∀ session, (phases place).session? = some session → scene.history session = calls

/-- An operation that has its place keeps the session of a run, unless it opens one. -/
theorem Phase.session?_after {phase : Phase} {op : RunOp} (h : phase.Allows op) {answer : op.Answer}
    (hopens : opens ⟨op, answer⟩ = false) : (phase.after op answer).session? = phase.session? := by
  cases op with
  | openSession =>
    cases phase with
    | outside =>
      cases answer with
      | error e => rfl
      | ok session => cases hopens
    | _ => cases h
  | exportCookies =>
    cases phase with
    | inside =>
      obtain rfl := h
      rfl
    | _ => cases h
  | closeSession =>
    cases phase with
    | inside =>
      obtain rfl := h
      rfl
    | leaving =>
      obtain rfl := h
      rfl
    | _ => cases h
  | _ => cases phase <;> rfl

/-- The phases of all runs after an operation of one of them. -/
def phasesAfter (phases : Nat → Phase) (i : Nat) (op : RunOp) (answer : op.Answer) : Nat → Phase :=
  Function.update phases i ((phases i).after op answer)

section
variable {phases : Nat → Phase} {place i : Nat} {calls : List Call} {scene scene' : Scene}
  {op : RunOp} {answer : op.Answer}

theorem Seated.of_sessions (h : Seated phases place calls scene)
    (hsessions : scene'.sessions = scene.sessions) : Seated phases place calls scene' where
  opened := by
    rw [hsessions]
    exact h.opened
  apart := h.apart
  history := by
    unfold Scene.history
    rw [hsessions]
    exact h.history

theorem Seated.of_session? {phases' : Nat → Phase} (h : Seated phases place calls scene)
    (hphases : ∀ j, (phases' j).session? = (phases j).session?) :
    Seated phases' place calls scene where
  opened j session := by
    rw [hphases]
    exact h.opened j session
  apart j k session := by
    rw [hphases, hphases]
    exact h.apart j k session
  history session := by
    rw [hphases]
    exact h.history session

theorem session?_phasesAfter (hallows : (phases i).Allows op) (hopens : opens ⟨op, answer⟩ = false)
    (j : Nat) : (phasesAfter phases i op answer j).session? = (phases j).session? := by
  unfold phasesAfter
  by_cases hj : j = i
  · subst hj
    rw [Function.update_self, Phase.session?_after hallows hopens]
  · rw [Function.update_of_ne hj]

theorem session?_phasesAfter_open {cookies : Option Cookie.Jar} {session found : SessionId}
    {j : Nat}
    (hj : (phasesAfter phases i (.openSession cookies) (.ok session) j).session? = some found) :
    j = i ∧ found = session ∨ j ≠ i ∧ (phases j).session? = some found := by
  unfold phasesAfter at hj
  by_cases hji : j = i
  · subst hji
    rw [Function.update_self] at hj
    exact .inl ⟨rfl, (Option.some.inj hj).symm⟩
  · rw [Function.update_of_ne hji] at hj
    exact .inr ⟨hji, hj⟩

/-- A session that opens belongs to no other run, and its run has made no calls on it. -/
theorem Seated.open {cookies : Option Cookie.Jar} {session : SessionId}
    (h : Seated phases place calls scene) (hsession : session = scene.sessions.length)
    (hsessions : scene'.sessions = scene.sessions ++ [[]]) :
    Seated (phasesAfter phases i (.openSession cookies) (.ok session)) place
      (if i = place then [] else calls) scene' where
  opened j found hj := by
    rw [hsessions, List.length_append, List.length_singleton]
    rcases session?_phasesAfter_open hj with ⟨-, rfl⟩ | ⟨-, hj⟩
    · exact Nat.lt_succ_of_le (Nat.le_of_eq hsession)
    · exact Nat.lt_succ_of_lt (h.opened j found hj)
  apart j k found hj hk := by
    have hfresh : ∀ l, (phases l).session? ≠ some session := fun l hl =>
      Nat.ne_of_lt (h.opened l session hl) hsession
    rcases session?_phasesAfter_open hj with ⟨rfl, rfl⟩ | ⟨-, holdj⟩ <;>
      rcases session?_phasesAfter_open hk with ⟨rfl, hfound⟩ | ⟨-, holdk⟩
    · rfl
    · exact absurd holdk (hfresh k)
    · exact absurd (hfound ▸ holdj) (hfresh j)
    · exact h.apart j k found holdj holdk
  history found hfound := by
    rcases session?_phasesAfter_open hfound with ⟨rfl, rfl⟩ | ⟨hplace, hfound⟩
    · rw [if_pos rfl, Scene.history, hsessions, hsession]
      simp
    · have hlt := h.opened place found hfound
      rw [if_neg (Ne.symm hplace), ← h.history found hfound, Scene.history, Scene.history,
        hsessions]
      simp [hlt, List.getElem?_append_left hlt]

/-- An operation on the session of a run changes nothing for the others. -/
theorem Seated.browse {session : SessionId} {calls' : List Call}
    (h : Seated phases place calls scene) (hi : (phases i).session? = some session)
    (hsessions : scene'.sessions = scene.sessions.set session calls') :
    Seated phases place (if i = place then calls' else calls) scene' where
  opened j found hj := by
    rw [hsessions, List.length_set]
    exact h.opened j found hj
  apart := h.apart
  history found hfound := by
    have hlt := h.opened place found hfound
    by_cases hplace : i = place
    · subst hplace
      cases hi.symm.trans hfound
      rw [if_pos rfl, Scene.history, hsessions]
      simp [hlt]
    · have hne : session ≠ found := by
        rintro rfl
        exact hplace (h.apart i place session hi hfound)
      rw [if_neg hplace, ← h.history found hfound, Scene.history, Scene.history, hsessions]
      simp [hne]

end

/-- What the calls of the run at a place are after an operation of a run: those of a page of its
own after its operations, and the same as before after those of all others. -/
theorem Seated.step {phases : Nat → Phase} {place i time : Nat} {calls : List Call} {scene : Scene}
    {op : RunOp} {commands : String → Except FlowError Command}
    {forms : String → Except FlowError Form} (h : Seated phases place calls scene)
    (hallows : (phases i).Allows op) :
    let reply := respond (stage.hostWith pages) none time op scene
    ∃ calls', Seated (phasesAfter phases i op reply.answer) place calls' reply.world ∧
      (i ≠ place → calls' = calls) ∧
      (i = place → Informed commands forms op reply.answer → Made op reply.answer →
        Private pages forms calls ⟨op, reply.answer⟩ calls') := by
  intro reply
  cases hopens : opens ⟨op, reply.answer⟩ with
  | true =>
    cases op with
    | openSession cookies =>
      cases hanswer : reply.answer with
      | error e =>
        rw [hanswer] at hopens
        cases hopens
      | ok session =>
        obtain ⟨hsession, hsessions⟩ := sessions_open hanswer
        refine ⟨_, h.open hsession hsessions, fun hi => if_neg hi, fun hi _ _ => ?_⟩
        rw [if_pos hi]
        exact .opened
    | _ => cases hopens
  | false =>
    have hphases := session?_phasesAfter hallows hopens
    cases op with
    | browse session op =>
      have hi : (phases i).session? = some session := by
        cases hphase : phases i with
        | inside =>
          rw [hphase] at hallows
          exact congrArg some hallows.symm
        | _ =>
          rw [hphase] at hallows
          cases hallows
      obtain ⟨calls', hsessions, hprivate⟩ := sessions_browse time session op scene
      refine ⟨_, (h.browse hi hsessions).of_session? hphases, fun hi => if_neg hi,
        fun hplace hinformed hmade => ?_⟩
      subst hplace
      rw [if_pos rfl, ← h.history session hi]
      exact hprivate hinformed hmade
    | _ =>
      exact ⟨calls, (h.of_sessions (sessions_other id hopens)).of_session? hphases, fun _ => rfl,
        fun _ _ _ => .other id hopens⟩

/-- What remains of a run after an operation obeys the protocol, be it cut off. -/
theorem obeys_advance {W : Type} {host : Host W} {Q : Phase → α → Prop} {phase : Phase} {time : Nat}
    {op : RunOp} {next : op.Answer → Running α} {w : W}
    (h : Obeys Q phase (.step op next : Running α)) :
    ∃ Q : Phase → α → Prop, Obeys Q (phase.after op (respond host cancel time op w).answer)
      (advance host cancel aborted time op next w).answer := by
  cases hbroken : brokenBy host op (respond host cancel time op w).answer w with
  | none =>
    rw [advance_of_brokenBy_eq_none hbroken]
    exact ⟨Q, h.2 _⟩
  | some report =>
    rw [advance_of_brokenBy_eq_some hbroken]
    exact ⟨fun _ _ => True, trivial⟩

/-- So all runs obey it, each in the phase in which it is after the operation of one of them. -/
theorem obeys_resume {W : Type} {host : Host W} {strands : List (Strand α)} {phases : Nat → Phase}
    {i turn : Nat} {s : Strand α} {op : RunOp} {next : op.Answer → Running α} {w : W}
    (hobeys : ∀ (j : Nat) (t : Strand α), strands[j]? = some t →
      ∃ Q : Phase → α → Prop, Obeys Q (phases j) t.rest)
    (hi : strands[i]? = some s) (hstep : s.rest = .step op next) (j : Nat) (t : Strand α)
    (hj : (strands.set i (s.resume turn (advance host cancel aborted s.due op next w).time
      (advance host cancel aborted s.due op next w).answer))[j]? = some t) :
    ∃ Q : Phase → α → Prop,
      Obeys Q (phasesAfter phases i op (respond host cancel s.due op w).answer j) t.rest := by
  unfold phasesAfter
  by_cases hji : j = i
  · subst hji
    rw [List.getElem?_set_self (List.getElem?_eq_some_iff.mp hi).1] at hj
    obtain rfl := Option.some.inj hj
    obtain ⟨Q, hQ⟩ := hobeys j s hi
    rw [hstep] at hQ
    rw [Function.update_self]
    exact obeys_advance hQ
  · rw [List.getElem?_set_ne (Ne.symm hji)] at hj
    rw [Function.update_of_ne hji]
    exact hobeys j t hj

/-- The calls on the session of a run are those that its own operations make on a page of its
own, whatever the other runs do. -/
theorem Plays.secluded {strands : List (Strand α)} {turn time : Nat} {scene : Scene}
    {log : List (Entry Scene)} {ended : Timed Scene (List (Strand α))}
    (h : Plays (stage.hostWith pages) none aborted strands turn time scene log ended)
    {commands : String → Except FlowError Command} {forms : String → Except FlowError Form}
    (hinformed : ∀ entry ∈ log, Informed commands forms entry.event.op entry.event.answer)
    {place : Nat} (hmade : ∀ entry ∈ own place log, Made entry.event.op entry.event.answer)
    {phases : Nat → Phase} {calls : List Call}
    (hobeys : ∀ (i : Nat) (s : Strand α), strands[i]? = some s →
      ∃ Q : Phase → α → Prop, Obeys Q (phases i) s.rest)
    (hseated : Seated phases place calls scene) :
    ∃ last calls', Path (phases place) ((own place log).map Entry.exchange) last ∧
      Program.Along (Private pages forms) calls ((own place log).map Entry.exchange) calls' ∧
      ∀ session, last.session? = some session → ended.world.history session = calls' := by
  induction h generalizing phases calls with
  | finished => exact ⟨phases place, calls, .nil _, .nil _, hseated.history⟩
  | @step strands turn time i scene s op next reply log ended hnext hstep hreply _ ih =>
    obtain ⟨hentry, hrest⟩ := List.forall_mem_cons.mp hinformed
    have hi := getElem?_of_nextStrand hnext
    obtain ⟨Q, hQ⟩ := hobeys i s hi
    rw [hstep] at hQ
    have hpassed := hseated.of_sessions (sessions_pass scene s.due)
    let asked := respond (stage.hostWith pages) none s.due op (scene.pass s.due)
    obtain ⟨calls', hseated', hother, hprivate⟩ : ∃ calls',
        Seated (phasesAfter phases i op asked.answer) place calls' asked.world ∧
          (i ≠ place → calls' = calls) ∧
          (i = place → Informed commands forms op asked.answer → Made op asked.answer →
            Private pages forms calls ⟨op, asked.answer⟩ calls') := hpassed.step hQ.1
    have hobeys' : ∀ (j : Nat) (t : Strand α),
        (strands.set i (s.resume turn reply.time reply.answer))[j]? = some t →
          ∃ Q : Phase → α → Prop, Obeys Q (phasesAfter phases i op asked.answer j) t.rest := by
      rw [← hreply]
      exact obeys_resume hobeys hi hstep
    have hworld : reply.world = asked.world := by
      rw [← hreply, world_advance]
      rfl
    -- the entry is one more of the run's own, or the run is where it was
    by_cases hplace : i = place
    · subst hplace
      have hown : own i (.of (stage.hostWith pages) none i s.due op (scene.pass s.due) :: log) =
          .of (stage.hostWith pages) none i s.due op (scene.pass s.due) :: own i log :=
        own_cons_self _ log
      have hmades := hmade
      rw [show (stage.hostWith pages).pass s.due scene = scene.pass s.due from rfl,
        hown] at hmades ⊢
      obtain ⟨hmadeEntry, hmadeRest⟩ := List.forall_mem_cons.mp hmades
      obtain ⟨last, calls'', hpath, halong, hhistory⟩ :=
        ih hrest hmadeRest hobeys' (hworld ▸ hseated')
      have hpath' : Path ((phases i).after op asked.answer)
          ((own i log).map Entry.exchange) last := by
        simpa only [phasesAfter, Function.update_self] using hpath
      exact ⟨last, calls'', .cons hQ.1 hpath',
        .cons (hprivate rfl hentry hmadeEntry) halong, hhistory⟩
    · have hown : own place (.of (stage.hostWith pages) none i s.due op (scene.pass s.due) :: log) =
          own place log := own_cons_of_ne hplace log
      rw [show (stage.hostWith pages).pass s.due scene = scene.pass s.due from rfl, hown] at hmade ⊢
      obtain ⟨last, calls'', hpath, halong, hhistory⟩ := ih hrest hmade hobeys' (hworld ▸ hseated')
      rw [hother hplace] at halong
      refine ⟨last, calls'', ?_, halong, hhistory⟩
      simpa only [phasesAfter, Function.update_of_ne (Ne.symm hplace)] using hpath

end Jobflow.Run
