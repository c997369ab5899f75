import Jobflow.Proofs.Workflow.Failures
import Jobflow.Proofs.Workflow.InTurn

/-!
Which conditions give a verdict. It is the shape of a tree that decides: a tree that looks at the
page for an element, or that branches, leaves a verdict whenever it lets the run go on, and any
other tree leaves what it found. So a branch has no verdict just when its condition has the wrong
shape, and where all conditions have the right one no branch fails for want of a verdict.
-/

namespace Jobflow.Workflow

namespace Command

mutual

/-- Whether the tree leaves a verdict when it lets the run go on. -/
def isDeciding : Command → Bool
  | .elementExists .. => true
  | .ifElse .. => true
  | .sequence children => anyDeciding children
  | _ => false

def anyDeciding : List Command → Bool
  | [] => false
  | child :: rest => child.isDeciding || anyDeciding rest

end

mutual

/-- Whether the condition of every branch in the tree is deciding. -/
def conditionsDecide : Command → Bool
  | .sequence children => allConditionsDecide children
  | .ifElse condition whenTrue none =>
    condition.isDeciding && condition.conditionsDecide && whenTrue.conditionsDecide
  | .ifElse condition whenTrue (some whenFalse) =>
    condition.isDeciding && condition.conditionsDecide && whenTrue.conditionsDecide &&
      whenFalse.conditionsDecide
  | _ => true

def allConditionsDecide : List Command → Bool
  | [] => true
  | child :: rest => child.conditionsDecide && allConditionsDecide rest

end

theorem conditionsDecide_ifElse {condition whenTrue : Command} {whenFalse : Option Command} :
    (ifElse condition whenTrue whenFalse).conditionsDecide ↔
      condition.isDeciding ∧ condition.conditionsDecide ∧ whenTrue.conditionsDecide ∧
        ∀ command, whenFalse = some command → command.conditionsDecide := by
  cases whenFalse with
  | none => simp [conditionsDecide, and_assoc]
  | some command => simp [conditionsDecide, and_assoc]

end Command

/-! ### Verdicts -/

/-- What is bound as the verdict after an execution that lets the run go on: a flag if the
execution is deciding, and otherwise what was bound before. -/
def LeavesVerdict (deciding : Bool) (start : Context) (ended : Ended) : Prop :=
  ended.result = .ok .continue →
    if deciding then ∃ verdict, ended.context.get? conditionResult = some (.flag verdict)
    else ended.context.get? conditionResult = start.get? conditionResult

/-- Whatever the answers are, the execution leaves such a verdict. -/
def Settles (deciding : Bool) (run : Context → Browsing Ended) : Prop :=
  ∀ ctx, Program.Yields (fun _ _ => True) (LeavesVerdict deciding ctx) (run ctx)

theorem leavesVerdict_of_ne {deciding : Bool} {start : Context} {ended : Ended}
    (h : ended.result ≠ .ok .continue) : LeavesVerdict deciding start ended :=
  fun hgo => absurd hgo h

/-- A verdict that was there is there after the execution, the same one or a new one. -/
theorem LeavesVerdict.of_flag {deciding : Bool} {start : Context} {ended : Ended}
    (h : LeavesVerdict deciding start ended) {verdict : Bool}
    (hstart : start.get? conditionResult = some (.flag verdict)) :
    LeavesVerdict true start ended := by
  intro hgo
  rw [if_pos rfl]
  specialize h hgo
  split at h
  · exact h
  · exact ⟨verdict, h.trans hstart⟩

section
variable {deciding deciding' : Bool} {first next whenTrue whenFalse : Context → Browsing Ended}

theorem settles_idle : Settles false idle := by
  intro ctx
  exact Program.yields_pure fun _ => rfl

theorem settles_inTurn (hfirst : Settles deciding first) (hnext : Settles deciding' next) :
    Settles (deciding || deciding') (inTurn first next) := by
  intro ctx
  refine yields_inTurn (hfirst ctx) ?_ fun _ _ hstop => leavesVerdict_of_ne hstop
  intro middle hmiddle
  refine (hnext middle).mono (fun _ _ _ => trivial) fun later hlater hgo => ?_
  specialize hmiddle rfl
  -- the second may keep the verdict of the first, or leave one of its own
  cases deciding with
  | true =>
    obtain ⟨verdict, hverdict⟩ := hmiddle
    exact hlater.of_flag hverdict hgo
  | false =>
    specialize hlater hgo
    cases deciding' with
    | true => exact hlater
    | false => exact hlater.trans hmiddle

/-- Whichever tree is chosen, the verdict that it was chosen by was there before it. -/
theorem settles_byVerdict (htrue : Settles deciding whenTrue)
    (hfalse : Settles deciding' whenFalse) : Settles true (byVerdict whenTrue whenFalse) := by
  intro ctx
  refine yields_byVerdict (fun hverdict => ?_) (fun hverdict => ?_)
    fun _ => leavesVerdict_of_ne (by simp)
  · refine (htrue ctx).mono (fun _ _ _ => trivial) fun _ h => ?_
    exact h.of_flag (Context.flag?_eq_some_iff.mp hverdict)
  · refine (hfalse ctx).mono (fun _ _ _ => trivial) fun _ h => ?_
    exact h.of_flag (Context.flag?_eq_some_iff.mp hverdict)

end

theorem yields_leavesVerdict_continued (ctx : Context) (step : Browsing (Except FlowError Unit)) :
    Program.Yields (fun _ _ => True) (LeavesVerdict false ctx) (continued ctx step) :=
  yields_continued (Program.yields_true step) (fun _ _ => rfl)
    fun _ _ => leavesVerdict_of_ne (by simp)

theorem yields_leavesVerdict_judge (ctx : Context) (selector : String)
    (settle : Option Time.Duration) :
    Program.Yields (fun _ _ => True) (LeavesVerdict true ctx) (judge ctx selector settle) :=
  yields_judge fun _ _ => ⟨_, Context.get?_setFlag_self ..⟩

theorem settles_leaf {command : Command} (hleaf : command.isLeaf) :
    Settles command.isDeciding (execute command) := by
  intro ctx
  cases command with
  | sequence | ifElse => cases hleaf
  | navigate | click | fillForm | screenshot =>
    rw [execute]
    exact yields_leavesVerdict_continued ctx _
  | elementExists selector settle =>
    rw [execute]
    exact yields_leavesVerdict_judge ctx selector settle
  | exit =>
    rw [execute]
    exact Program.yields_pure (leavesVerdict_of_ne (by simp))

mutual

theorem settles_execute (command : Command) : Settles command.isDeciding (execute command) := by
  cases command with
  | sequence children =>
    rw [execute_sequence, Command.isDeciding]
    exact settles_executeAll children
  | ifElse condition whenTrue whenFalse =>
    rw [execute_ifElse, Command.isDeciding]
    have hbranch : Settles true (byVerdict (execute whenTrue) (executeElse whenFalse)) := by
      cases whenFalse with
      | none =>
        rw [executeElse_none]
        exact settles_byVerdict (settles_execute whenTrue) settles_idle
      | some whenFalse =>
        rw [executeElse_some]
        exact settles_byVerdict (settles_execute whenTrue) (settles_execute whenFalse)
    have hwhole := settles_inTurn (settles_execute condition) hbranch
    rw [Bool.or_true] at hwhole
    exact fun ctx => hwhole (ctx.remove conditionResult)
  | _ => exact settles_leaf rfl

theorem settles_executeAll (children : List Command) :
    Settles (Command.anyDeciding children) (executeAll children) := by
  cases children with
  | nil =>
    rw [executeAll_nil]
    exact settles_idle
  | cons child rest =>
    rw [executeAll_cons]
    exact settles_inTurn (settles_execute child) (settles_executeAll rest)

end

/-! ### Failures -/

variable {P : FlowError → Prop}

/-- Whatever the answers are, the execution fails only with failures that satisfy `P`, as long as
forms do. -/
def EndsFailOnly (P : FlowError → Prop) (run : Context → Browsing Ended) : Prop :=
  ∀ ctx, Program.Yields (FormsFailOnly P) (fun ended => FailsOnly P ended.result) (run ctx)

section
variable {first next whenTrue whenFalse : Context → Browsing Ended}

theorem endsFailOnly_idle : EndsFailOnly P idle :=
  fun _ => Program.yields_pure (failsOnly_ok _)

theorem yields_failsOnly_continued {ctx : Context} {step : Browsing (Except FlowError Unit)}
    (h : StepFailsOnly P step) :
    Program.Yields (FormsFailOnly P) (fun ended => FailsOnly P ended.result)
      (continued ctx step) :=
  yields_continued h (fun _ => failsOnly_ok _) fun _ herror => herror.error

theorem yields_failsOnly_judge (ctx : Context) (selector : String)
    (settle : Option Time.Duration) :
    Program.Yields (FormsFailOnly P) (fun ended => FailsOnly P ended.result)
      (judge ctx selector settle) :=
  yields_judge fun _ => failsOnly_ok _

theorem endsFailOnly_inTurn (hfirst : EndsFailOnly P first) (hnext : EndsFailOnly P next) :
    EndsFailOnly P (inTurn first next) := fun ctx =>
  yields_inTurn (hfirst ctx) (fun middle _ => hnext middle) fun _ hended _ => hended

/-- A choice fails for want of a verdict only if that satisfies `P`, or the condition before it
does not settle the verdict. -/
theorem endsFailOnly_branch {condition : Context → Browsing Ended}
    (hverdict : ¬ P .conditionNotSet → Settles true condition)
    (hcondition : EndsFailOnly P condition) (htrue : EndsFailOnly P whenTrue)
    (hfalse : EndsFailOnly P whenFalse) :
    EndsFailOnly P (inTurn condition (byVerdict whenTrue whenFalse)) := by
  by_cases hP : P .conditionNotSet
  · refine endsFailOnly_inTurn hcondition fun ctx => ?_
    exact yields_byVerdict (fun _ => htrue ctx) (fun _ => hfalse ctx) fun _ => failsOnly_error hP
  · intro ctx
    have hsettled : Program.Yields (FormsFailOnly P) (LeavesVerdict true ctx) (condition ctx) :=
      (hverdict hP ctx).mono (fun _ _ _ => trivial) fun _ h => h
    refine yields_inTurn ((hcondition ctx).and hsettled) ?_ fun _ hended _ => hended.1
    intro middle ⟨_, hleaves⟩
    obtain ⟨verdict, hfound⟩ := hleaves rfl
    refine yields_byVerdict (fun _ => htrue middle) (fun _ => hfalse middle) fun hnone => ?_
    rw [Context.flag?_eq_some_iff.mpr hfound] at hnone
    cases hnone

end

theorem endsFailOnly_leaf (hP : CoversNodes P) {command : Command} (hleaf : command.isLeaf) :
    EndsFailOnly P (execute command) := by
  intro ctx
  cases command with
  | sequence | ifElse => cases hleaf
  | navigate url readiness =>
    rw [execute]
    exact yields_failsOnly_continued (stepFailsOnly_lifted hP _)
  | click selector timeout after =>
    rw [execute]
    exact yields_failsOnly_continued (stepFailsOnly_click hP ctx _ _ _)
  | elementExists selector settle =>
    rw [execute]
    exact yields_failsOnly_judge ctx selector settle
  | fillForm id =>
    rw [execute]
    exact yields_failsOnly_continued (stepFailsOnly_fillForm hP ctx _)
  | exit success message =>
    rw [execute]
    exact Program.yields_pure (failsOnly_ok _)
  | screenshot pathTemplate =>
    rw [execute]
    exact yields_failsOnly_continued (stepFailsOnly_takeScreenshot hP ctx _)

mutual

theorem endsFailOnly_execute (hP : CoversNodes P) (command : Command)
    (h : ¬ P .conditionNotSet → command.conditionsDecide) : EndsFailOnly P (execute command) := by
  cases command with
  | sequence children =>
    rw [execute_sequence]
    exact endsFailOnly_executeAll hP children (by rwa [Command.conditionsDecide] at h)
  | ifElse condition whenTrue whenFalse =>
    rw [Command.conditionsDecide_ifElse] at h
    have hsettles : ¬ P .conditionNotSet → Settles true (execute condition) := by
      intro hnot
      have hcondition := settles_execute condition
      rwa [(h hnot).1] at hcondition
    have helse : EndsFailOnly P (executeElse whenFalse) := by
      cases whenFalse with
      | none =>
        rw [executeElse_none]
        exact endsFailOnly_idle
      | some whenFalse =>
        rw [executeElse_some]
        exact endsFailOnly_execute hP whenFalse fun hnot => (h hnot).2.2.2 whenFalse rfl
    rw [execute_ifElse]
    have hbranch := endsFailOnly_branch hsettles
      (endsFailOnly_execute hP condition fun hnot => (h hnot).2.1)
      (endsFailOnly_execute hP whenTrue fun hnot => (h hnot).2.2.1) helse
    exact fun ctx => hbranch (ctx.remove conditionResult)
  | _ => exact endsFailOnly_leaf hP rfl

theorem endsFailOnly_executeAll (hP : CoversNodes P) (children : List Command)
    (h : ¬ P .conditionNotSet → Command.allConditionsDecide children) :
    EndsFailOnly P (executeAll children) := by
  cases children with
  | nil =>
    rw [executeAll_nil]
    exact endsFailOnly_idle
  | cons child rest =>
    simp only [Command.allConditionsDecide, Bool.and_eq_true] at h
    rw [executeAll_cons]
    exact endsFailOnly_inTurn (endsFailOnly_execute hP child fun hnot => (h hnot).1)
      (endsFailOnly_executeAll hP rest fun hnot => (h hnot).2)

end

/-! ### Branches -/

/-- The tree that a verdict chooses. -/
def chosen (whenTrue : Command) (whenFalse : Option Command) : Bool → Context → Browsing Ended
  | true => execute whenTrue
  | false => executeElse whenFalse

section
variable {W : Type} (d : Driver W)

theorem leavesVerdict_carryOut (command : Command) (ctx : Context) (w : W) :
    LeavesVerdict command.isDeciding ctx (d.carryOut (execute command ctx) w).result :=
  Driver.result_carryOut (fun _ _ => trivial) (settles_execute command ctx) w

/-- The end of a branch whose condition let the run go on. -/
theorem carryOut_ifElse {condition whenTrue : Command} {whenFalse : Option Command}
    {ctx : Context} {w : W} {judged : Carried W Ended}
    (hjudged : d.carryOut (execute condition (ctx.remove conditionResult)) w = judged)
    (hgo : judged.result.result = .ok .continue) :
    d.carryOut (execute (.ifElse condition whenTrue whenFalse) ctx) w =
      match judged.result.context.flag? conditionResult with
      | some verdict => judged.followedBy
          (d.carryOut (chosen whenTrue whenFalse verdict judged.result.context) judged.world)
      | none => ⟨judged.calls, ⟨.error .conditionNotSet, judged.result.context⟩, judged.world⟩ := by
  obtain ⟨calls, ⟨result, ctx'⟩, w'⟩ := judged
  obtain rfl : result = .ok .continue := hgo
  rw [execute, Driver.carryOut_bind, hjudged, Ended.andThen_continue, byVerdict]
  dsimp only
  cases ctx'.flag? conditionResult with
  | none => rw [Driver.carryOut_pure, Carried.followedBy, List.append_nil]
  | some verdict =>
    cases verdict with
    | true => rfl
    | false => rfl

/-- When the condition let the run go on, a branch fails for want of a verdict either because the
condition is not deciding, or because the tree that the verdict chose fails so. -/
theorem ifElse_conditionNotSet_iff {condition whenTrue : Command} {whenFalse : Option Command}
    {ctx : Context} {w : W} {judged : Carried W Ended}
    (hjudged : d.carryOut (execute condition (ctx.remove conditionResult)) w = judged)
    (hgo : judged.result.result = .ok .continue) :
    (d.carryOut (execute (.ifElse condition whenTrue whenFalse) ctx) w).result.result =
        .error .conditionNotSet ↔
      condition.isDeciding = false ∨
        ∃ verdict, judged.result.context.flag? conditionResult = some verdict ∧
          (d.carryOut (chosen whenTrue whenFalse verdict judged.result.context)
            judged.world).result.result = .error .conditionNotSet := by
  have hleaves := leavesVerdict_carryOut d condition (ctx.remove conditionResult) w
  rw [hjudged] at hleaves
  specialize hleaves hgo
  rw [carryOut_ifElse d hjudged hgo]
  cases hdeciding : condition.isDeciding with
  | true =>
    rw [hdeciding, if_pos rfl] at hleaves
    obtain ⟨verdict, hfound⟩ := hleaves
    have hverdict := Context.flag?_eq_some_iff.mpr hfound
    rw [hverdict]
    simp [Carried.followedBy]
  | false =>
    rw [hdeciding, if_neg (by simp), Context.get?_remove, if_pos rfl] at hleaves
    have hverdict : judged.result.context.flag? conditionResult = none := by
      rw [Context.flag?, hleaves]
    rw [hverdict]
    simp

end

/-- Whether a condition yields a verdict is decided by its shape. When a tree lets the run go on, a
flag is bound as the verdict if the tree is deciding, and otherwise what was bound before. So a
branch whose condition lets the run go on fails for want of a verdict just when the condition is
not deciding or the tree that was chosen fails so, and a tree all of whose conditions are deciding
fails so only if a form is answered by that failure. -/
theorem verdict_decided_by_shape {W : Type} (d : Driver W) (ctx : Context) (w : W) :
    (∀ command, (d.carryOut (execute command ctx) w).result.result = .ok .continue →
      if command.isDeciding then
        ∃ verdict, (d.carryOut (execute command ctx) w).result.context.get? conditionResult =
          some (.flag verdict)
      else (d.carryOut (execute command ctx) w).result.context.get? conditionResult =
        ctx.get? conditionResult) ∧
    (∀ condition whenTrue whenFalse,
      let judged := d.carryOut (execute condition (ctx.remove conditionResult)) w
      judged.result.result = .ok .continue →
        ((d.carryOut (execute (.ifElse condition whenTrue whenFalse) ctx) w).result.result =
            .error .conditionNotSet ↔
          condition.isDeciding = false ∨
            ∃ verdict, judged.result.context.flag? conditionResult = some verdict ∧
              (d.carryOut (chosen whenTrue whenFalse verdict judged.result.context)
                judged.world).result.result = .error .conditionNotSet)) ∧
    ((∀ id w, (d.act (.form id) w).1 ≠ .error .conditionNotSet) →
      ∀ command, command.conditionsDecide →
        (d.carryOut (execute command ctx) w).result.result ≠ .error .conditionNotSet) := by
  refine ⟨fun command => leavesVerdict_carryOut d command ctx w, ?_, ?_⟩
  · intro condition whenTrue whenFalse judged hgo
    exact ifElse_conditionNotSet_iff d rfl hgo
  · intro hforms command hdecide
    have hanswers (op : Browse) (w : W) :
        FormsFailOnly (· ≠ .conditionNotSet) op (d.act op w).1 := by
      cases op with
      | form id => exact failsOnly_ne_iff.mpr (hforms id w)
      | _ => trivial
    have hends := endsFailOnly_execute (coversNodes_ne (.inl rfl)) command (fun _ => hdecide) ctx
    exact failsOnly_ne_iff.mp (Driver.result_carryOut hanswers hends w)

/-- A branch that looks at the page for its verdict. -/
def dismissing : Command :=
  .ifElse (.elementExists "#banner" none) (.exit true none) none

theorem verdict_decided_by_shape_dismissing :
    (∃ verdict, (Driver.failing.carryOut (execute dismissing .empty) ()).result.context.get?
      conditionResult = some (.flag verdict)) ∧
    (Driver.failing.carryOut (execute (.ifElse (.sequence []) (.exit true none) none) .empty)
      ()).result.result = .error .conditionNotSet ∧
    (Driver.failing.carryOut (execute dismissing .empty) ()).result.result ≠
      .error .conditionNotSet := by
  obtain ⟨hbound, hbranch, hnever⟩ := verdict_decided_by_shape Driver.failing .empty ()
  refine ⟨hbound dismissing rfl, ?_, hnever nofun dismissing rfl⟩
  exact (hbranch (.sequence []) (.exit true none) none rfl).mpr (.inl rfl)

/-- A deciding condition that lets the run go on does not keep a branch from failing for want of a
verdict: here the tree that is chosen is a branch without one. And where all conditions are
deciding, the failure may still be what a form is answered by. -/
theorem deciding_condition_not_enough :
    ((Command.elementExists "#banner" none).isDeciding = true ∧
      (Driver.failing.carryOut (execute (.elementExists "#banner" none)
        (Context.empty.remove conditionResult)) ()).result.result = .ok .continue ∧
      (Driver.failing.carryOut (execute (.ifElse (.elementExists "#banner" none) (.sequence [])
        (some (.ifElse (.sequence []) (.exit true none) none))) .empty) ()).result.result =
          .error .conditionNotSet) ∧
    (Command.fillForm "").conditionsDecide = true ∧
      ((Driver.failing.answering (.form "") (.error .conditionNotSet)).carryOut
        (execute (.fillForm "") .empty) (true, ())).result.result = .error .conditionNotSet :=
  ⟨⟨rfl, rfl, rfl⟩, rfl, rfl⟩

end Jobflow.Workflow
