import Jobflow.Proofs.Coupling
import Jobflow.Proofs.Run.Chronicle
import Jobflow.Proofs.Workflow.InTurn
import Mathlib.Data.Option.Basic

/-!
What an execution does depends on the texts among its variables alone. Templates look at
texts only, and the one flag that a tree looks at, the verdict of a condition, is removed
before the condition is executed. So two executions whose variables agree on the texts go
on in the same way, and agree on the texts again when they end.
-/

namespace Jobflow.Workflow

open Jobflow.Program (Coupled coupled_pure)
open Jobflow.Run (Cancellation Host SessionId drive eventsAlone runAlone)

/-- The same texts are bound to the same names. -/
def SameTexts (ctx ctx' : Context) : Prop := ∀ name, ctx.text? name = ctx'.text? name

/-- A flag that takes the place of no text changes no text. -/
theorem sameTexts_setFlag {ctx : Context} {name : String} (h : ctx.text? name = none)
    (value : Bool) : SameTexts (ctx.setFlag name value) ctx := by
  intro other
  by_cases hname : other = name
  · subst hname
    rw [h]
    simp only [Context.text?, Context.setFlag, Context.get?_set, if_pos]
  · simp only [Context.text?, Context.setFlag, Context.get?_set, if_neg hname]

theorem SameTexts.interpolate {ctx ctx' : Context} (h : SameTexts ctx ctx') :
    interpolate ctx = interpolate ctx' := by
  have htoken : tokenValue ctx = tokenValue ctx' := by
    funext name
    rw [tokenValue, tokenValue, h]
  have hrest : ∀ state input, substitute ctx state input = substitute ctx' state input := by
    intro state input
    fun_induction substitute ctx state input <;> simp_all [substitute]
  funext input
  rw [Workflow.interpolate, Workflow.interpolate, hrest]

/-- Variables that agree on the texts, and on the verdict of a condition if that is `known`
to have been set or removed in both. -/
structure Agree (known : Prop) (ctx ctx' : Context) : Prop where
  texts : SameTexts ctx ctx'
  verdict : known → ctx.flag? conditionResult = ctx'.flag? conditionResult

section
variable {known : Prop} {ctx ctx' : Context}

theorem Agree.set (h : Agree known ctx ctx') (name : String) (value : Binding) :
    Agree known (ctx.set name value) (ctx'.set name value) where
  texts other := by
    have hother := h.texts other
    unfold Context.text? at hother ⊢
    by_cases hname : other = name
    · simp only [Context.get?_set, if_pos hname]
    · simp only [Context.get?_set, if_neg hname, hother]
  verdict hknown := by
    have hverdict := h.verdict hknown
    unfold Context.flag? at hverdict ⊢
    by_cases hname : conditionResult = name
    · simp only [Context.get?_set, if_pos hname]
    · simp only [Context.get?_set, if_neg hname, hverdict]

/-- Once the verdict is removed the variables agree on it, whatever it was. -/
theorem Agree.remove (h : Agree known ctx ctx') :
    Agree True (ctx.remove conditionResult) (ctx'.remove conditionResult) where
  texts other := by
    have hother := h.texts other
    unfold Context.text? at hother ⊢
    by_cases hname : other = conditionResult
    · simp only [Context.get?_remove, if_pos hname]
    · simp only [Context.get?_remove, if_neg hname, hother]
  verdict _ := by
    unfold Context.flag?
    simp only [Context.get?_remove, if_pos]

theorem Agree.of_known (h : Agree True ctx ctx') : Agree known ctx ctx' :=
  ⟨h.texts, fun _ => h.verdict trivial⟩

/-- Two executions end with the same result and with variables that agree. -/
structure EndAgreed (known : Prop) (ended ended' : Ended) : Prop where
  result : ended.result = ended'.result
  context : Agree known ended.context ended'.context

/-! ### Steps of a workflow -/

theorem SameTexts.click (h : SameTexts ctx ctx') : click ctx = click ctx' := by
  funext selector timeout after
  unfold Workflow.click
  rw [h.interpolate]

theorem SameTexts.fillForm (h : SameTexts ctx ctx') : fillForm ctx = fillForm ctx' := by
  have hfield : fillField ctx = fillField ctx' := by
    funext field kind
    unfold fillField
    rw [h.interpolate]
  have hfields : fillFields ctx = fillFields ctx' := by
    funext fields
    induction fields with
    | nil => rfl
    | cons field rest ih => rw [fillFields, fillFields, hfield, ih]
  funext id
  unfold Workflow.fillForm
  rw [hfields]

theorem SameTexts.takeScreenshot (h : SameTexts ctx ctx') :
    takeScreenshot ctx = takeScreenshot ctx' := by
  funext pathTemplate
  unfold Workflow.takeScreenshot
  rw [h.interpolate]

/-- Two programs that perform the same operations as long as they are answered the same. -/
abbrev GoOn {α β : Type} (R : α → β → Prop) (p : Browsing α) (q : Browsing β) : Prop :=
  Coupled Eq Eq R p q

theorem goOn_continued (h : Agree known ctx ctx') {step step' : Browsing (Except FlowError Unit)}
    (hstep : step = step') :
    GoOn (EndAgreed known) (continued ctx step) (continued ctx' step') := by
  subst hstep
  apply (Program.coupled_refl step).bind
  rintro r _ rfl
  cases r with
  | ok => exact coupled_pure ⟨rfl, h⟩
  | error e => exact coupled_pure ⟨rfl, h⟩

theorem goOn_judge (h : Agree known ctx ctx') (selector : String)
    (settle : Option Time.Duration) :
    GoOn (EndAgreed known) (judge ctx selector settle) (judge ctx' selector settle) := by
  unfold judge
  rw [h.texts.interpolate]
  have hcount : GoOn (EndAgreed known)
      (do
        let counted ← onPage (.count (interpolate ctx' selector))
        return ⟨.ok .continue, ctx.setFlag conditionResult (anyCounted counted)⟩)
      (do
        let counted ← onPage (.count (interpolate ctx' selector))
        return ⟨.ok .continue, ctx'.setFlag conditionResult (anyCounted counted)⟩) := by
    apply (Program.coupled_refl _).bind
    rintro counted _ rfl
    exact coupled_pure ⟨rfl, h.set _ _⟩
  cases settle with
  | none => exact hcount
  | some duration => exact (Program.coupled_refl _).bind fun _ _ _ => hcount

theorem agree_exitContext (h : Agree known ctx ctx') (success : Bool) (message : Option String) :
    Agree known (exitContext ctx success message) (exitContext ctx' success message) := by
  cases message with
  | none => exact h.set _ _
  | some message => exact (h.set _ _).set _ _

theorem goOn_andThen {ended ended' : Ended} (hended : EndAgreed known ended ended')
    {next next' : Context → Browsing Ended}
    (hnext : ∀ ctx ctx', Agree known ctx ctx' → GoOn (EndAgreed known) (next ctx) (next' ctx')) :
    GoOn (EndAgreed known) (ended.andThen next) (ended'.andThen next') := by
  obtain ⟨result, ctx⟩ := ended
  obtain ⟨result', ctx'⟩ := ended'
  obtain ⟨hresult, hcontext⟩ := hended
  obtain rfl : result = result' := hresult
  unfold Ended.andThen
  dsimp only
  split
  · exact hnext ctx ctx' hcontext
  · exact coupled_pure ⟨rfl, hcontext⟩

/-! ### Trees -/

/-- From variables that agree the execution goes on in the same way, to variables that agree. -/
def GoesByTexts (run : Context → Browsing Ended) : Prop :=
  ∀ {known : Prop} {ctx ctx' : Context}, Agree known ctx ctx' →
    GoOn (EndAgreed known) (run ctx) (run ctx')

section
variable {first next whenTrue whenFalse : Context → Browsing Ended}

theorem goesByTexts_inTurn (hfirst : GoesByTexts first) (hnext : GoesByTexts next) :
    GoesByTexts (inTurn first next) := fun h =>
  (hfirst h).bind fun _ _ hended => goOn_andThen hended fun _ _ hcontext => hnext hcontext

theorem goOn_byVerdict (htrue : GoesByTexts whenTrue) (hfalse : GoesByTexts whenFalse)
    (h : Agree True ctx ctx') :
    GoOn (EndAgreed True) (byVerdict whenTrue whenFalse ctx)
      (byVerdict whenTrue whenFalse ctx') := by
  unfold byVerdict
  rw [h.verdict trivial]
  split
  · exact htrue h
  · exact hfalse h
  · exact coupled_pure ⟨rfl, h⟩

/-- The verdict is removed before the condition, so from there on both know the same one, whatever
flags they began with. -/
theorem goesByTexts_branch {condition : Context → Browsing Ended}
    (hcondition : GoesByTexts condition) (htrue : GoesByTexts whenTrue)
    (hfalse : GoesByTexts whenFalse) :
    GoesByTexts fun ctx =>
      inTurn condition (byVerdict whenTrue whenFalse) (ctx.remove conditionResult) := by
  intro known ctx ctx' h
  have hends : GoOn (EndAgreed True)
      (inTurn condition (byVerdict whenTrue whenFalse) (ctx.remove conditionResult))
      (inTurn condition (byVerdict whenTrue whenFalse) (ctx'.remove conditionResult)) :=
    (hcondition h.remove).bind fun _ _ hjudged =>
      goOn_andThen hjudged fun _ _ hcontext => goOn_byVerdict htrue hfalse hcontext
  -- the branch may be within a tree that does not know the verdict
  exact hends.mono fun _ _ hended => ⟨hended.result, hended.context.of_known⟩

end

theorem goesByTexts_leaf {command : Command} (hleaf : command.isLeaf) :
    GoesByTexts (execute command) := by
  intro known ctx ctx' h
  cases command with
  | sequence | ifElse => cases hleaf
  | navigate url readiness =>
    rw [execute, execute, h.texts.interpolate]
    exact goOn_continued h rfl
  | click selector timeout after =>
    rw [execute, execute, h.texts.interpolate, h.texts.click]
    exact goOn_continued h rfl
  | elementExists selector settle =>
    rw [execute, execute]
    exact goOn_judge h selector settle
  | fillForm id =>
    rw [execute, execute, h.texts.interpolate, h.texts.fillForm]
    exact goOn_continued h rfl
  | exit success message =>
    rw [execute, execute]
    exact coupled_pure ⟨rfl, agree_exitContext h success _⟩
  | screenshot pathTemplate =>
    rw [execute, execute, h.texts.takeScreenshot]
    exact goOn_continued h rfl

theorem compositional_goesByTexts : Compositional GoesByTexts where
  empty h := coupled_pure ⟨rfl, h⟩
  sequence := goesByTexts_inTurn
  branch := goesByTexts_branch
  leaf _ := goesByTexts_leaf

theorem goOn_execute {known : Prop} (command : Command) {ctx ctx' : Context}
    (h : Agree known ctx ctx') :
    GoOn (EndAgreed known) (execute command ctx) (execute command ctx') :=
  compositional_goesByTexts.execute command h

end

/-! ### Surroundings -/

/-- How two executions end: with the same result, and with the same texts. -/
structure SameTextsEnd (ended ended' : Ended) : Prop where
  result : ended.result = ended'.result
  texts : SameTexts ended.context ended'.context

theorem goOn_of_sameTexts (command : Command) {ctx ctx' : Context} (htexts : SameTexts ctx ctx') :
    GoOn SameTextsEnd (execute command ctx) (execute command ctx') := by
  have hagree : Agree False ctx ctx' := ⟨htexts, nofun⟩
  exact (goOn_execute command hagree).mono fun _ _ h => ⟨h.result, h.context.texts⟩

section
variable {W α β : Type} {R : α → β → Prop} {p : Browsing α} {q : Browsing β}

/-- A driver carries such programs out in the same way. -/
theorem GoOn.carryOut (h : GoOn R p q) (d : Driver W) (w : W) :
    (d.carryOut p w).calls = (d.carryOut q w).calls ∧
      (d.carryOut p w).world = (d.carryOut q w).world ∧
      R (d.carryOut p w).result (d.carryOut q w).result := by
  induction h generalizing w with
  | done h => exact ⟨rfl, rfl, h⟩
  | @step op _ next next' hop _ ih =>
    subst hop
    obtain ⟨hcalls, hworld, hresult⟩ := ih (d.act op w).1 _ rfl (d.act op w).2
    exact ⟨congrArg (d.calls op w ++ ·) hcalls, hworld, hresult⟩

/-- In a session that may be stopped at any time such programs take the same time, and are
stopped at the same operation or not at all. -/
theorem GoOn.runAlone (h : GoOn R p q) (host : Host W) (cancel : Cancellation)
    (session : SessionId) (time : Nat) (w : W) :
    eventsAlone host cancel (drive session p) time w =
        eventsAlone host cancel (drive session q) time w ∧
      (runAlone host cancel (drive session p) time w).time =
        (runAlone host cancel (drive session q) time w).time ∧
      (runAlone host cancel (drive session p) time w).world =
        (runAlone host cancel (drive session q) time w).world ∧
      Option.Rel R (runAlone host cancel (drive session p) time w).answer
        (runAlone host cancel (drive session q) time w).answer := by
  induction h generalizing time w with
  | done h => exact ⟨rfl, rfl, rfl, .some h⟩
  | @step op _ next next' hop _ ih =>
    subst hop
    simp only [drive, eventsAlone, Run.runAlone]
    generalize Run.respond host cancel time (.browse session op) w = reply
    obtain ⟨time', answer, w'⟩ := reply
    cases answer with
    | none => exact ⟨rfl, rfl, rfl, .none⟩
    | some answer =>
      obtain ⟨hevents, hrest⟩ := ih answer _ rfl time' (host.pass time' w')
      exact ⟨congrArg (_ :: ·) hevents, hrest⟩

end

/-- What an execution does depends on the texts among its variables alone. From variables that
agree on the texts, whatever flags are bound besides, every driver is asked for the same calls
and answers in the same world, the result is the same, and the variables agree on the texts
again. In a session that may be stopped the two executions do the same at the same times. -/
theorem execute_depends_on_texts (command : Command) (ctx ctx' : Context)
    (htexts : SameTexts ctx ctx') :
    (∀ {W : Type} (d : Driver W) (w : W),
      (d.carryOut (execute command ctx) w).calls = (d.carryOut (execute command ctx') w).calls ∧
      (d.carryOut (execute command ctx) w).world = (d.carryOut (execute command ctx') w).world ∧
      SameTextsEnd (d.carryOut (execute command ctx) w).result
        (d.carryOut (execute command ctx') w).result) ∧
    ∀ {W : Type} (host : Host W) (cancel : Cancellation) (session : SessionId) (time : Nat) (w : W),
      let run := drive session (execute command ctx)
      let run' := drive session (execute command ctx')
      eventsAlone host cancel run time w = eventsAlone host cancel run' time w ∧
      (runAlone host cancel run time w).time = (runAlone host cancel run' time w).time ∧
      (runAlone host cancel run time w).world = (runAlone host cancel run' time w).world ∧
      Option.Rel SameTextsEnd (runAlone host cancel run time w).answer
        (runAlone host cancel run' time w).answer := by
  have hgo := goOn_of_sameTexts command htexts
  constructor
  · intro W d w
    exact hgo.carryOut d w
  · intro W host cancel session time w
    exact hgo.runAlone host cancel session time w

/-- A tree that looks at a verdict and uses a text. -/
def greeting : Command :=
  .ifElse (.elementExists "#login" none) (.navigate "https://example.com/$\x7bname\x7d" .load)
    (some (.exit true (some "$\x7bname\x7d")))

/-- The variables of a run for someone. -/
def fresh : Context := .ofBindings [("name", .text "Anna")]

/-- The same variables with flags that are left over from another run. -/
def leftover : Context := (fresh.setFlag conditionResult true).setFlag finishedSuccessfully true

theorem execute_depends_on_texts_leftover :
    SameTexts leftover fresh ∧
      ∀ {W : Type} (d : Driver W) (w : W),
        (d.carryOut (execute greeting leftover) w).calls =
          (d.carryOut (execute greeting fresh) w).calls ∧
        (d.carryOut (execute greeting leftover) w).world =
          (d.carryOut (execute greeting fresh) w).world ∧
        SameTextsEnd (d.carryOut (execute greeting leftover) w).result
          (d.carryOut (execute greeting fresh) w).result := by
  have htexts : SameTexts leftover fresh := by
    intro name
    exact (sameTexts_setFlag (by decide) true name).trans (sameTexts_setFlag (by decide) true name)
  exact ⟨htexts, (execute_depends_on_texts greeting leftover fresh htexts).1⟩

end Jobflow.Workflow
