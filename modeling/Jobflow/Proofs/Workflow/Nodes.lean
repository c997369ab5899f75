import Jobflow.Proofs.Workflow.InTurn

/-!
The nodes of a tree that an execution goes through. The execution with its nodes noted down is the
execution itself, and it ends at an exit just when the last node that was noted down is an exit.
-/

namespace Jobflow.Workflow

/-- How an execution ended, with the nodes that it began, in their order. -/
structure Noted where
  nodes : List Command
  ended : Ended

namespace Noted

/-- Goes on after a node that lets the run go on, with the further nodes noted down. -/
def andThen (noted : Noted) (next : Context → Browsing Noted) : Browsing Noted :=
  match noted.ended.result with
  | .ok .continue => do
    let later ← next noted.ended.context
    return ⟨noted.nodes ++ later.nodes, later.ended⟩
  | _ => return noted

/-- The same execution as part of the node that holds it. -/
def within (node : Command) (noted : Noted) : Noted := ⟨node :: noted.nodes, noted.ended⟩

end Noted

/-- Goes on with one of two trees, by the verdict of a condition. -/
def notingVerdict (whenTrue whenFalse : Context → Browsing Noted) (ctx : Context) :
    Browsing Noted :=
  match ctx.flag? conditionResult with
  | some true => whenTrue ctx
  | some false => whenFalse ctx
  | none => return ⟨[], ⟨.error .conditionNotSet, ctx⟩⟩

mutual

/-- Executes a tree and notes down its nodes. -/
def executeNoting : Command → Context → Browsing Noted
  | .sequence children, ctx => do
    return (← executeAllNoting children ctx).within (.sequence children)
  | .ifElse condition whenTrue whenFalse, ctx => do
    let judged ← executeNoting condition (ctx.remove conditionResult)
    let noted ← judged.andThen
      (notingVerdict (executeNoting whenTrue) (executeElseNoting whenFalse))
    return noted.within (.ifElse condition whenTrue whenFalse)
  | node, ctx => do return ⟨[node], ← execute node ctx⟩

def executeAllNoting : List Command → Context → Browsing Noted
  | [], ctx => return ⟨[], ⟨.ok .continue, ctx⟩⟩
  | child :: rest, ctx => do
    let noted ← executeNoting child ctx
    noted.andThen (executeAllNoting rest)

def executeElseNoting : Option Command → Context → Browsing Noted
  | none, ctx => return ⟨[], ⟨.ok .continue, ctx⟩⟩
  | some command, ctx => executeNoting command ctx

end

/-! ### The same execution -/

theorem ended_andThen {next : Context → Browsing Noted} {plain : Context → Browsing Ended}
    (hnext : ∀ ctx, Noted.ended <$> next ctx = plain ctx) (noted : Noted) :
    Noted.ended <$> noted.andThen next = noted.ended.andThen plain := by
  obtain ⟨nodes, result, ctx⟩ := noted
  unfold Noted.andThen Ended.andThen
  cases result with
  | error e => simp
  | ok flow =>
    cases flow with
    | «continue» => simp [← hnext]
    | terminated success message => simp

theorem ended_notingVerdict {whenTrue whenFalse : Context → Browsing Noted}
    {plainTrue plainFalse : Context → Browsing Ended}
    (htrue : ∀ ctx, Noted.ended <$> whenTrue ctx = plainTrue ctx)
    (hfalse : ∀ ctx, Noted.ended <$> whenFalse ctx = plainFalse ctx) (ctx : Context) :
    Noted.ended <$> notingVerdict whenTrue whenFalse ctx = byVerdict plainTrue plainFalse ctx := by
  unfold notingVerdict byVerdict
  cases ctx.flag? conditionResult with
  | none => simp
  | some verdict =>
    cases verdict with
    | true => exact htrue ctx
    | false => exact hfalse ctx

mutual

/-- Noting down the nodes changes nothing. -/
theorem ended_executeNoting (command : Command) (ctx : Context) :
    Noted.ended <$> executeNoting command ctx = execute command ctx := by
  cases command with
  | sequence children =>
    rw [executeNoting, execute, ← ended_executeAllNoting children ctx]
    simp [Noted.within]
  | ifElse condition whenTrue whenFalse =>
    have hnext := ended_andThen (ended_notingVerdict
      (ended_executeNoting whenTrue) (ended_executeElseNoting whenFalse))
    rw [executeNoting, execute, ← ended_executeNoting condition]
    simp [Noted.within, ← hnext]
  | _ => simp [executeNoting]

theorem ended_executeAllNoting (children : List Command) (ctx : Context) :
    Noted.ended <$> executeAllNoting children ctx = executeAll children ctx := by
  cases children with
  | nil => simp [executeAllNoting, executeAll]
  | cons child rest =>
    have hnext := ended_andThen (ended_executeAllNoting rest)
    rw [executeAllNoting, executeAll, ← ended_executeNoting child]
    simp [← hnext]

theorem ended_executeElseNoting (whenFalse : Option Command) (ctx : Context) :
    Noted.ended <$> executeElseNoting whenFalse ctx = executeElse whenFalse ctx := by
  cases whenFalse with
  | none => simp [executeElseNoting, executeElse]
  | some command =>
    rw [executeElseNoting, executeElse]
    exact ended_executeNoting command ctx

end

/-! ### The last node -/

/-- The execution was terminated just when its last node is an exit, and as that says. -/
def Noted.EndsAtExit (noted : Noted) : Prop :=
  ∀ success shown, noted.ended.result = .ok (.terminated success shown) ↔
    ∃ message, noted.nodes.getLast? = some (.exit success message) ∧ message.filter (· ≠ "") = shown

/-- Whatever the answers are, the execution ends like this. -/
abbrev EndsNoted (p : Browsing Noted) : Prop :=
  Program.Yields (fun _ _ => True) Noted.EndsAtExit p

theorem endsAtExit_of_empty {ended : Ended}
    (h : ∀ success shown, ended.result ≠ .ok (.terminated success shown)) :
    Noted.EndsAtExit ⟨[], ended⟩ := by
  intro success shown
  simp [h]

theorem endsAtExit_within {noted : Noted} {node : Command}
    (hnode : ∀ success message, node ≠ .exit success message) (h : noted.EndsAtExit) :
    (noted.within node).EndsAtExit := by
  intro success shown
  rw [Noted.within, h success shown]
  cases hlast : noted.nodes.getLast? with
  | none => simp [List.getLast?_cons, hlast, hnode]
  | some last => simp [List.getLast?_cons, hlast]

theorem endsNoted_andThen {noted : Noted} (hnoted : noted.EndsAtExit)
    {next : Context → Browsing Noted}
    (hnext : ∀ ctx, EndsNoted (next ctx)) : EndsNoted (noted.andThen next) := by
  unfold Noted.andThen
  split
  · next hgo =>
    refine (hnext _).bind fun later hlater => Program.yields_pure fun success shown => ?_
    have hfirst := hnoted success shown
    rw [hgo] at hfirst
    rw [hlater success shown, List.getLast?_append]
    cases hlast : later.nodes.getLast? with
    | some last => simp
    | none => simpa using hfirst
  · exact Program.yields_pure hnoted

theorem endsNoted_notingVerdict {whenTrue whenFalse : Context → Browsing Noted}
    (htrue : ∀ ctx, EndsNoted (whenTrue ctx)) (hfalse : ∀ ctx, EndsNoted (whenFalse ctx))
    (ctx : Context) :
    EndsNoted (notingVerdict whenTrue whenFalse ctx) := by
  unfold notingVerdict
  split
  · exact htrue ctx
  · exact hfalse ctx
  · exact Program.yields_pure (endsAtExit_of_empty (by simp))

/-- The execution is not terminated. -/
abbrev NeverTerminates (p : Browsing Ended) : Prop :=
  Program.Yields (fun _ _ => True)
    (fun ended => ∀ success shown, ended.result ≠ .ok (.terminated success shown)) p

theorem neverTerminates_continued (ctx : Context) (step : Browsing (Except FlowError Unit)) :
    NeverTerminates (continued ctx step) :=
  yields_continued (Program.yields_true step) (by simp) (by simp)

theorem neverTerminates_judge (ctx : Context) (selector : String) (settle : Option Time.Duration) :
    NeverTerminates (judge ctx selector settle) :=
  yields_judge (by simp)

/-- A node that holds no others and is no exit does not terminate the execution. -/
theorem endsNoted_single {node : Command} {p : Browsing Ended}
    (hnode : ∀ success message, node ≠ .exit success message) (hp : NeverTerminates p) :
    EndsNoted (do return ⟨[node], ← p⟩) := by
  refine hp.bind fun ended hended => Program.yields_pure ?_
  exact endsAtExit_within hnode (endsAtExit_of_empty hended)

mutual

theorem endsNoted_executeNoting (command : Command) (ctx : Context) :
    EndsNoted (executeNoting command ctx) := by
  cases command with
  | sequence children =>
    rw [executeNoting]
    refine (endsNoted_executeAllNoting children ctx).bind fun noted hnoted => Program.yields_pure ?_
    exact endsAtExit_within nofun hnoted
  | ifElse condition whenTrue whenFalse =>
    rw [executeNoting]
    refine (endsNoted_executeNoting condition _).bind fun judged hjudged => ?_
    have hbranch := endsNoted_notingVerdict (endsNoted_executeNoting whenTrue)
      (endsNoted_executeElseNoting whenFalse)
    refine (endsNoted_andThen hjudged hbranch).bind fun noted hnoted => Program.yields_pure ?_
    exact endsAtExit_within nofun hnoted
  | navigate url readiness => exact endsNoted_single nofun (neverTerminates_continued ..)
  | click selector timeout after => exact endsNoted_single nofun (neverTerminates_continued ..)
  | elementExists selector settle => exact endsNoted_single nofun (neverTerminates_judge ..)
  | fillForm id => exact endsNoted_single nofun (neverTerminates_continued ..)
  | screenshot pathTemplate => exact endsNoted_single nofun (neverTerminates_continued ..)
  | exit success message =>
    rw [executeNoting, execute]
    · refine Program.yields_pure fun success' shown => ?_
      simp [and_assoc]
    · nofun
    · nofun

theorem endsNoted_executeAllNoting (children : List Command) (ctx : Context) :
    EndsNoted (executeAllNoting children ctx) := by
  cases children with
  | nil =>
    rw [executeAllNoting]
    exact Program.yields_pure (endsAtExit_of_empty (by simp))
  | cons child rest =>
    rw [executeAllNoting]
    refine (endsNoted_executeNoting child ctx).bind fun noted hnoted => ?_
    exact endsNoted_andThen hnoted (endsNoted_executeAllNoting rest)

theorem endsNoted_executeElseNoting (whenFalse : Option Command) (ctx : Context) :
    EndsNoted (executeElseNoting whenFalse ctx) := by
  cases whenFalse with
  | none =>
    rw [executeElseNoting]
    exact Program.yields_pure (endsAtExit_of_empty (by simp))
  | some command =>
    rw [executeElseNoting]
    exact endsNoted_executeNoting command ctx

end

/-- Every execution has its nodes, and was terminated just when the last of them is an exit. -/
theorem exists_nodes {command : Command} {ctx : Context}
    {trace : List ((op : browsing.Op) × browsing.Answer op)} {ended : Ended}
    (h : Program.Performs (execute command ctx) trace ended) :
    ∃ noted, Program.Performs (executeNoting command ctx) trace noted ∧ noted.ended = ended ∧
      noted.EndsAtExit := by
  rw [← ended_executeNoting] at h
  obtain ⟨noted, hnoted, rfl⟩ := h.of_map
  exact ⟨noted, hnoted, rfl, hnoted.yields (endsNoted_executeNoting command ctx) fun _ _ => trivial⟩

end Jobflow.Workflow
