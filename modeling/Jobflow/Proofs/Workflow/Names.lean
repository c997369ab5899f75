import Jobflow.Page.Together
import Jobflow.Proofs.Coupling
import Jobflow.Proofs.Uuid
import Jobflow.Proofs.Workflow.InTurn
import Mathlib.Data.List.Forall2

/-!
Executions of a workflow are the same but for the names that are generated for screenshots.
Such a name shows in the path of a screenshot and in what a page reports about it, and nowhere
else: no variable and no decision of a workflow depends on one.
-/

namespace Jobflow.Workflow

open Jobflow.Page (Behaviour Call PageError)
open Jobflow.Program (Coupled coupled_pure)

/-- An operation of a workflow with its answer. -/
abbrev Exchange := (op : browsing.Op) × browsing.Answer op

/-! ### The same but for names -/

/-- A generated name is the text of an identifier. -/
def IsGenerated (name : String) : Prop := ∃ id : Uuid, name = id.text

/-- The texts are the same but for generated names. -/
inductive SameButNames : String → String → Prop
  | same (s : String) : SameButNames s s
  | name {name name' : String} : IsGenerated name → IsGenerated name' → SameButNames name name'
  | append {a a' b b' : String} : SameButNames a a' → SameButNames b b' →
      SameButNames (a ++ b) (a' ++ b')

/-- The calls are the same, or screenshots whose paths are the same but for names. -/
inductive SameCall : Call → Call → Prop
  | same (call : Call) : SameCall call call
  | screenshot {path path' : String} : SameButNames path path' →
      SameCall (.screenshot path) (.screenshot path')

/-- Reports of a page that are the same but for names. -/
def SameReport (e e' : PageError) : Prop := SameButNames e.message e'.message

/-- Failures that are the same, or reports of a page that are the same but for names. -/
inductive SameFailure : FlowError → FlowError → Prop
  | same (e : FlowError) : SameFailure e e
  | page {e e' : PageError} : SameReport e e' → SameFailure (.page e) (.page e')

/-- The same value, or failures that `E` relates. -/
inductive SameResult {ε α : Type} (E : ε → ε → Prop) : Except ε α → Except ε α → Prop
  | ok (a : α) : SameResult E (.ok a) (.ok a)
  | error {e e' : ε} : E e e' → SameResult E (.error e) (.error e')

theorem SameReport.refl (e : PageError) : SameReport e e := .same _

theorem SameFailure.message {e e' : FlowError} (h : SameFailure e e') :
    SameButNames e.message e'.message := by
  cases h with
  | same => exact .same _
  | page h => exact .append (.same _) h

theorem SameResult.refl {ε α : Type} {E : ε → ε → Prop} (hE : ∀ e, E e e) (r : Except ε α) :
    SameResult E r r := by
  cases r with
  | ok a => exact .ok a
  | error e => exact .error (hE e)

theorem SameResult.mapError {ε ε' α : Type} {E : ε → ε → Prop} {E' : ε' → ε' → Prop} {f : ε → ε'}
    (hf : ∀ {e e'}, E e e' → E' (f e) (f e')) {r r' : Except ε α} (h : SameResult E r r') :
    SameResult E' (r.mapError f) (r'.mapError f) := by
  cases h with
  | ok a => exact .ok a
  | error he => exact .error (hf he)

/-- The ends of two executions: the same variables, and results that are the same but for
names. -/
structure SameEnd (ended ended' : Ended) : Prop where
  context : ended.context = ended'.context
  result : SameResult SameFailure ended.result ended'.result

/-! ### Operations -/

/-- Operations that are the same but for names. -/
inductive SameOp : browsing.Op → browsing.Op → Prop
  | same (op : Browse) : SameOp op op
  | call {call call' : Call} : SameCall call call' → SameOp (Browse.call call) (Browse.call call')

/-- What is answered to operations that are the same but for names: the same, reports of a page
that are the same but for names, or one generated name each. -/
inductive Alike : Exchange → Exchange → Prop
  | same (exchange : Exchange) : Alike exchange exchange
  | shot {path path' : String} :
      Alike ⟨.call (.screenshot path), .ok ()⟩ ⟨.call (.screenshot path'), .ok ()⟩
  | call {call call' : Call} {e e' : PageError} : SameReport e e' →
      Alike ⟨.call call, .error e⟩ ⟨.call call', .error e'⟩
  | clickAwaiting {selector next : String} {timeout : Option Time.Duration} {e e' : PageError} :
      SameReport e e' →
      Alike ⟨.clickAwaiting selector timeout next, .error e⟩
        ⟨.clickAwaiting selector timeout next, .error e'⟩
  | clickSettling {selector : String} {timeout : Option Time.Duration} {e e' : PageError} :
      SameReport e e' →
      Alike ⟨.clickSettling selector timeout, .error e⟩ ⟨.clickSettling selector timeout, .error e'⟩
  | name {name name' : String} : IsGenerated name → IsGenerated name' →
      Alike ⟨.freshName, name⟩ ⟨.freshName, name'⟩

theorem sameResult_of_call {call : Call} {r r' : Except PageError call.Answer}
    (h : Alike ⟨.call call, r⟩ ⟨.call call, r'⟩) : SameResult SameReport r r' := by
  cases h with
  | same => exact .refl SameReport.refl r
  | shot => exact .ok ()
  | call h => exact .error h

theorem sameResult_of_screenshot {path path' : String} {r r' : Except PageError Unit}
    (h : Alike ⟨.call (.screenshot path), r⟩ ⟨.call (.screenshot path'), r'⟩) :
    SameResult SameReport r r' := by
  cases h with
  | same => exact .refl SameReport.refl r
  | shot => exact .ok ()
  | call h => exact .error h

/-! ### Steps of a workflow -/

section
variable {α β : Type}

/-- Two programs that go on alike as long as they are answered alike. -/
abbrev GoAlike (R : α → β → Prop) (p : Browsing α) (q : Browsing β) : Prop :=
  Coupled SameOp Alike R p q

theorem goAlike_onPage (call : Call) :
    GoAlike (SameResult SameReport) (onPage call) (onPage call) :=
  .step (.same _) fun _ _ h => .done (sameResult_of_call h)

theorem goAlike_screenshot {path path' : String} (h : SameButNames path path') :
    GoAlike (SameResult SameReport) (onPage (.screenshot path)) (onPage (.screenshot path')) :=
  .step (.call (.screenshot h)) fun _ _ h => .done (sameResult_of_screenshot h)

theorem goAlike_clickAwaiting (selector : String) (timeout : Option Time.Duration) (next : String) :
    GoAlike (SameResult SameReport) (clickAwaiting selector timeout next)
      (clickAwaiting selector timeout next) := by
  refine .step (.same _) fun answer answer' h => .done ?_
  cases h with
  | same => exact .refl SameReport.refl answer
  | clickAwaiting h => exact .error h

theorem goAlike_clickSettling (selector : String) (timeout : Option Time.Duration) :
    GoAlike (SameResult SameReport) (clickSettling selector timeout)
      (clickSettling selector timeout) := by
  refine .step (.same _) fun answer answer' h => .done ?_
  cases h with
  | same => exact .refl SameReport.refl answer
  | clickSettling h => exact .error h

theorem goAlike_sleep (duration : Time.Duration) :
    GoAlike (fun _ _ => True) (sleep duration) (sleep duration) :=
  .step (.same _) fun _ _ _ => .done trivial

theorem goAlike_formNamed (id : String) : GoAlike Eq (formNamed id) (formNamed id) := by
  refine .step (.same _) fun answer answer' h => .done ?_
  cases h
  rfl

theorem goAlike_makeDirectories (path : Files.Path) :
    GoAlike Eq (makeDirectories path) (makeDirectories path) := by
  refine .step (.same _) fun answer answer' h => .done ?_
  cases h
  rfl

theorem goAlike_freshName :
    GoAlike (fun name name' => name = name' ∨ IsGenerated name ∧ IsGenerated name') freshName
      freshName := by
  refine .step (.same _) fun answer answer' h => .done ?_
  cases h with
  | same => exact .inl rfl
  | name hname hname' => exact .inr ⟨hname, hname'⟩

theorem goAlike_lifted {step step' : Browsing (Except PageError α)}
    (h : GoAlike (SameResult SameReport) step step') :
    GoAlike (SameResult SameFailure) (lifted step) (lifted step') := by
  apply h.bind
  intro r r' hr
  cases hr with
  | ok a => exact coupled_pure (.ok a)
  | error he => exact coupled_pure (.error (.page he))

theorem goAlike_proceed {ε : Type} {E : ε → ε → Prop} {step step' : Browsing (Except ε α)}
    {next next' : α → Browsing (Except ε β)} (hstep : GoAlike (SameResult E) step step')
    (hnext : ∀ a, GoAlike (SameResult E) (next a) (next' a)) :
    GoAlike (SameResult E) (proceed step next) (proceed step' next') := by
  apply hstep.bind
  intro r r' hr
  cases hr with
  | ok a => exact hnext a
  | error he => exact coupled_pure (.error he)

theorem goAlike_ite {R : α → β → Prop} {c : Prop} [Decidable c] {p p' : Browsing α}
    {q q' : Browsing β} (h : GoAlike R p q) (h' : GoAlike R p' q') :
    GoAlike R (if c then p else p') (if c then q else q') := by
  by_cases hc : c
  · rwa [if_pos hc, if_pos hc]
  · rwa [if_neg hc, if_neg hc]

theorem goAlike_click (ctx : Context) (selector : String) (timeout : Option Time.Duration)
    (after : AfterClick) :
    GoAlike (SameResult SameFailure) (click ctx selector timeout after)
      (click ctx selector timeout after) := by
  have hplain := goAlike_lifted (goAlike_onPage (.click selector timeout))
  unfold click
  dsimp only
  split
  · exact hplain
  · apply goAlike_proceed hplain
    intro _
    exact (goAlike_sleep _).bind fun _ _ _ => coupled_pure (.ok ())
  · split
    · exact hplain
    · apply goAlike_proceed (goAlike_lifted (goAlike_clickAwaiting _ _ _))
      intro appeared
      exact coupled_pure (.refl .same _)
  · exact goAlike_lifted (goAlike_clickSettling _ _)

theorem goAlike_fillElement (kind : FieldKind) (selector value : String) :
    GoAlike (SameResult SameReport) (fillElement kind selector value)
      (fillElement kind selector value) := by
  have htext : GoAlike (SameResult SameReport)
      (proceed (onPage (.fill selector "")) fun _ => onPage (.fill selector value))
      (proceed (onPage (.fill selector "")) fun _ => onPage (.fill selector value)) :=
    goAlike_proceed (goAlike_onPage _) fun _ => goAlike_onPage _
  cases kind with
  | select => exact goAlike_onPage (.selectOption _ _)
  | radio => exact goAlike_onPage (.check _)
  | checkbox =>
    simp only [fillElement]
    split
    · exact goAlike_onPage (.check _)
    · exact goAlike_onPage (.uncheck _)
    · exact coupled_pure (.ok ())
  | file =>
    exact (goAlike_onPage (.setInputFiles selector value)).bind fun _ _ _ => coupled_pure (.ok ())
  | _ => exact htext

theorem goAlike_fillField (ctx : Context) (field : FormField) (kind : FieldKind) :
    GoAlike (SameResult SameReport) (fillField ctx field kind) (fillField ctx field kind) := by
  apply goAlike_proceed (goAlike_onPage _)
  intro count
  split
  · exact coupled_pure (.ok ())
  · apply goAlike_proceed (goAlike_onPage _)
    intro visible
    apply goAlike_proceed (goAlike_onPage _)
    intro enabled
    split
    · exact goAlike_fillElement _ _ _
    · exact coupled_pure (.ok ())

theorem goAlike_fillFields (ctx : Context) (fields : List (FormField × FieldKind)) :
    GoAlike (fun _ _ => True) (fillFields ctx fields) (fillFields ctx fields) := by
  induction fields with
  | nil => exact coupled_pure trivial
  | cons field rest ih => exact (goAlike_fillField ctx field.1 field.2).bind fun _ _ _ => ih

theorem goAlike_fillForm (ctx : Context) (id : String) :
    GoAlike (SameResult SameFailure) (fillForm ctx id) (fillForm ctx id) := by
  refine Coupled.bind (goAlike_formNamed id) ?_
  rintro found _ rfl
  cases found with
  | error e => exact coupled_pure (.error (.same e))
  | ok form =>
    dsimp only
    split
    · exact coupled_pure (.error (.same _))
    · exact (goAlike_fillFields ctx _).bind fun _ _ _ => coupled_pure (.ok ())

/-! ### Screenshots -/

theorem IsGenerated.head?_ne {name : String} (h : IsGenerated name) (rest : String) :
    (name ++ rest).toList.head? ≠ some '/' := by
  obtain ⟨id, rfl⟩ := h
  have hslash : ∀ k < 16, Text.hexDigit k ≠ '/' := by decide
  obtain ⟨a, b, c, d, e, hdigits, hlengths, htext⟩ := Uuid.toList_text id
  simp only [List.map_cons, List.map_nil, Uuid.groupLengths, List.cons.injEq] at hlengths
  obtain ⟨digit, digits, rfl⟩ := List.exists_cons_of_length_pos (l := a) (by omega)
  obtain ⟨k, hk, rfl⟩ : ∃ k < 16, digit = Text.hexDigit k :=
    Uuid.exists_hexDigit (hdigits ▸ List.mem_append_left _ List.mem_cons_self)
  rw [String.toList_append, htext]
  simpa using hslash k hk

/-- A generated name is looked up in a directory in the same way as any other. -/
theorem sameButNames_join {name name' : String} (hname : IsGenerated name)
    (hname' : IsGenerated name') (directory : Files.Path) (rest : String) :
    SameButNames (Files.Path.join directory (name ++ rest))
      (Files.Path.join directory (name' ++ rest)) := by
  have hnames : SameButNames (name ++ rest) (name' ++ rest) :=
    .append (.name hname hname') (.same _)
  simp only [Files.Path.join, hname.head?_ne, hname'.head?_ne, false_or]
  split
  · exact hnames
  · split
    · exact .append (.same _) hnames
    · exact .append (.same _) hnames

theorem goAlike_takeScreenshot (ctx : Context) (pathTemplate : String) :
    GoAlike (SameResult SameFailure) (takeScreenshot ctx pathTemplate)
      (takeScreenshot ctx pathTemplate) := by
  apply goAlike_freshName.bind
  intro name name' hnames
  have hpath : SameButNames
      (Files.Path.join (interpolate ctx pathTemplate) (name ++ ".png"))
      (Files.Path.join (interpolate ctx pathTemplate) (name' ++ ".png")) := by
    rcases hnames with rfl | ⟨hname, hname'⟩
    · exact .same _
    · exact sameButNames_join hname hname' _ _
  have hshoot := @goAlike_lifted Unit (onPage (.screenshot _)) (onPage (.screenshot _))
    (goAlike_screenshot hpath)
  refine goAlike_ite hshoot (Coupled.bind (goAlike_makeDirectories _) ?_)
  rintro made _ rfl
  cases made with
  | ok => exact hshoot
  | error cause => exact coupled_pure (.error (.same _))

/-! ### Trees -/

theorem goAlike_continued (ctx : Context) {step step' : Browsing (Except FlowError Unit)}
    (h : GoAlike (SameResult SameFailure) step step') :
    GoAlike SameEnd (continued ctx step) (continued ctx step') := by
  apply h.bind
  intro r r' hr
  cases hr with
  | ok => exact coupled_pure ⟨rfl, .ok _⟩
  | error he => exact coupled_pure ⟨rfl, .error he⟩

theorem goAlike_judge (ctx : Context) (selector : String) (settle : Option Time.Duration) :
    GoAlike SameEnd (judge ctx selector settle) (judge ctx selector settle) := by
  have hcount : GoAlike SameEnd
      (do
        let counted ← onPage (.count (interpolate ctx selector))
        return ⟨.ok .continue, ctx.setFlag conditionResult (anyCounted counted)⟩)
      (do
        let counted ← onPage (.count (interpolate ctx selector))
        return ⟨.ok .continue, ctx.setFlag conditionResult (anyCounted counted)⟩) := by
    apply (goAlike_onPage _).bind
    intro counted counted' hcounted
    cases hcounted with
    | ok => exact coupled_pure ⟨rfl, .ok _⟩
    | error => exact coupled_pure ⟨rfl, .ok _⟩
  unfold judge
  cases settle with
  | none => exact hcount
  | some duration => exact (goAlike_sleep duration).bind fun _ _ _ => hcount

theorem goAlike_andThen {ended ended' : Ended} (hended : SameEnd ended ended')
    {next : Context → Browsing Ended} (hnext : ∀ ctx, GoAlike SameEnd (next ctx) (next ctx)) :
    GoAlike SameEnd (ended.andThen next) (ended'.andThen next) := by
  obtain ⟨result, ctx⟩ := ended
  obtain ⟨result', ctx'⟩ := ended'
  obtain ⟨hcontext, hresult⟩ := hended
  obtain rfl : ctx = ctx' := hcontext
  dsimp only at hresult
  cases hresult with
  | error he => exact coupled_pure ⟨rfl, .error he⟩
  | ok flow =>
    cases flow with
    | «continue» => exact hnext ctx
    | terminated success message => exact coupled_pure ⟨rfl, .ok _⟩

theorem goAlike_inTurn {first next : Context → Browsing Ended}
    (hfirst : ∀ ctx, GoAlike SameEnd (first ctx) (first ctx))
    (hnext : ∀ ctx, GoAlike SameEnd (next ctx) (next ctx)) (ctx : Context) :
    GoAlike SameEnd (inTurn first next ctx) (inTurn first next ctx) :=
  (hfirst ctx).bind fun _ _ hended => goAlike_andThen hended hnext

theorem goAlike_byVerdict {whenTrue whenFalse : Context → Browsing Ended}
    (htrue : ∀ ctx, GoAlike SameEnd (whenTrue ctx) (whenTrue ctx))
    (hfalse : ∀ ctx, GoAlike SameEnd (whenFalse ctx) (whenFalse ctx)) (ctx : Context) :
    GoAlike SameEnd (byVerdict whenTrue whenFalse ctx) (byVerdict whenTrue whenFalse ctx) := by
  unfold byVerdict
  split
  · exact htrue ctx
  · exact hfalse ctx
  · exact coupled_pure ⟨rfl, .error (.same _)⟩

theorem goAlike_leaf {command : Command} (hleaf : command.isLeaf) (ctx : Context) :
    GoAlike SameEnd (execute command ctx) (execute command ctx) := by
  cases command with
  | sequence | ifElse => cases hleaf
  | navigate url readiness =>
    rw [execute]
    exact goAlike_continued ctx (goAlike_lifted (goAlike_onPage (.navigate _ _)))
  | click selector timeout after =>
    rw [execute]
    exact goAlike_continued ctx (goAlike_click _ _ _ _)
  | elementExists selector settle =>
    rw [execute]
    exact goAlike_judge _ _ _
  | fillForm id =>
    rw [execute]
    exact goAlike_continued ctx (goAlike_fillForm _ _)
  | exit success message =>
    rw [execute]
    exact coupled_pure ⟨rfl, .ok _⟩
  | screenshot pathTemplate =>
    rw [execute]
    exact goAlike_continued ctx (goAlike_takeScreenshot _ _)

theorem compositional_goAlike :
    Compositional fun run => ∀ ctx, GoAlike SameEnd (run ctx) (run ctx) where
  empty _ := coupled_pure ⟨rfl, .ok _⟩
  sequence := goAlike_inTurn
  branch hcondition htrue hfalse ctx :=
    goAlike_inTurn hcondition (goAlike_byVerdict htrue hfalse) (ctx.remove conditionResult)
  leaf _ := goAlike_leaf

/-- Answered alike, a workflow goes on alike. -/
theorem goAlike_execute (command : Command) (ctx : Context) :
    GoAlike SameEnd (execute command ctx) (execute command ctx) :=
  compositional_goAlike.execute command ctx

end

/-! ### Pages -/

/-- Two pages that answer the same but for names to calls that are the same but for names. -/
structure PagesAlike (page page' : Behaviour) : Prop where
  delay : ∀ {history history' : List Call} {call call' : Call},
    List.Forall₂ SameCall history history' → SameCall call call' →
    (page.answer history call).delay = (page'.answer history' call').delay
  result : ∀ {history history' : List Call} {call call' : Call},
    List.Forall₂ SameCall history history' → SameCall call call' →
    Alike ⟨.call call, (page.answer history call).result⟩
      ⟨.call call', (page'.answer history' call').result⟩

/-- How the surroundings of a workflow answer: a page by the calls so far, forms by their names,
directories can be made, and names are generated. -/
inductive Serves (page : Behaviour) (forms : String → Except FlowError Form)
    (history : List Call) : Exchange → List Call → Prop
  | call (call : Call) :
      Serves page forms history ⟨.call call, (page.make history call).reply.result⟩
        (page.make history call).history
  | clickAwaiting (selector : String) (timeout : Option Time.Duration) (next : String) :
      Serves page forms history
        ⟨.clickAwaiting selector timeout next,
          (page.makeWith history (.click selector timeout) (.waitForSelector next)).reply.result⟩
        (page.makeWith history (.click selector timeout) (.waitForSelector next)).history
  | clickSettling (selector : String) (timeout : Option Time.Duration) :
      Serves page forms history
        ⟨.clickSettling selector timeout,
          (page.makeWith history (.click selector timeout) .waitForLoadIdle).reply.result⟩
        (page.makeWith history (.click selector timeout) .waitForLoadIdle).history
  | sleep (duration : Time.Duration) :
      Serves page forms history ⟨.sleep duration, ()⟩ history
  | form (id : String) : Serves page forms history ⟨.form id, forms id⟩ history
  | makeDirectories (path : Files.Path) :
      Serves page forms history ⟨.makeDirectories path, .ok ()⟩ history
  | freshName {name : String} : IsGenerated name →
      Serves page forms history ⟨.freshName, name⟩ history

section
variable {page page' : Behaviour} {history history' : List Call}

/-- Replies that are the same but for names are so when they are waited for at once. -/
theorem sameResult_alongside {α β : Type} {first first' : Page.Reply α}
    {second second' : Page.Reply β}
    (hfirst : first.delay = first'.delay) (hcall : SameResult SameReport first.result first'.result)
    (hsecond : second.delay = second'.delay)
    (hwait : SameResult SameReport second.result second'.result) :
    (first.alongside second).delay = (first'.alongside second').delay ∧
      SameResult SameReport (first.alongside second).result (first'.alongside second').result := by
  obtain ⟨delay, result⟩ := first
  obtain ⟨delay', result'⟩ := first'
  obtain ⟨later, waited⟩ := second
  obtain ⟨later', waited'⟩ := second'
  dsimp only at hfirst hcall hsecond hwait
  subst hfirst hsecond
  simp only [Page.Reply.alongside]
  cases hcall with
  | ok a =>
    cases hwait with
    | ok b => exact ⟨rfl, .ok b⟩
    | error hf => exact ⟨rfl, .error hf⟩
  | error he =>
    cases hwait with
    | ok b => exact ⟨rfl, .error he⟩
    | error hf =>
      dsimp only
      split
      · exact ⟨rfl, .error he⟩
      · exact ⟨rfl, .error hf⟩

/-- A call that was made with a wait alongside, on pages that are alike. -/
theorem PagesAlike.made (h : PagesAlike page page')
    (hhistory : List.Forall₂ SameCall history history') (call wait : Call) :
    (page.makeWith history call wait).reply.delay =
        (page'.makeWith history' call wait).reply.delay ∧
      SameResult SameReport (page.makeWith history call wait).reply.result
        (page'.makeWith history' call wait).reply.result ∧
      List.Forall₂ SameCall (page.makeWith history call wait).history
        (page'.makeWith history' call wait).history := by
  have hone : List.Forall₂ SameCall (history ++ [call]) (history' ++ [call]) :=
    List.rel_append hhistory (.cons (.same _) .nil)
  have htwo : List.Forall₂ SameCall (history ++ [call, wait]) (history' ++ [call, wait]) :=
    List.rel_append hhistory (.cons (.same _) (.cons (.same _) .nil))
  have hfirst := h.delay hhistory (.same call)
  have hcall := sameResult_of_call (h.result hhistory (.same call))
  obtain ⟨hdelay, hresult⟩ := sameResult_alongside hfirst hcall (h.delay hone (.same wait))
    (sameResult_of_call (h.result hone (.same wait)))
  unfold Behaviour.makeWith
  generalize page.answer history call = first at hfirst hcall hdelay hresult ⊢
  generalize page'.answer history' call = first' at hfirst hcall hdelay hresult ⊢
  obtain ⟨delay, result⟩ := first
  obtain ⟨delay', result'⟩ := first'
  dsimp only at hfirst hcall ⊢
  subst hfirst
  cases hcall with
  | ok a => exact ⟨hdelay, hresult, htwo⟩
  | error he =>
    dsimp only
    split
    · exact ⟨rfl, .error he, hone⟩
    · exact ⟨hdelay, hresult, htwo⟩

theorem PagesAlike.makeWith (h : PagesAlike page page')
    (hhistory : List.Forall₂ SameCall history history') (call wait : Call) :
    SameResult SameReport (page.makeWith history call wait).reply.result
        (page'.makeWith history' call wait).reply.result ∧
      List.Forall₂ SameCall (page.makeWith history call wait).history
        (page'.makeWith history' call wait).history :=
  (h.made hhistory call wait).2

theorem alike_clickAwaiting {selector next : String} {timeout : Option Time.Duration}
    {r r' : Except PageError Bool} (h : SameResult SameReport r r') :
    Alike ⟨.clickAwaiting selector timeout next, r⟩ ⟨.clickAwaiting selector timeout next, r'⟩ := by
  cases h with
  | ok => exact .same _
  | error he => exact .clickAwaiting he

theorem alike_clickSettling {selector : String} {timeout : Option Time.Duration}
    {r r' : Except PageError Unit} (h : SameResult SameReport r r') :
    Alike ⟨.clickSettling selector timeout, r⟩ ⟨.clickSettling selector timeout, r'⟩ := by
  cases h with
  | ok => exact .same _
  | error he => exact .clickSettling he

/-- Surroundings with pages that are alike answer alike, and stay so. -/
theorem PagesAlike.serves (h : PagesAlike page page') {forms : String → Except FlowError Form}
    {exchange exchange' : Exchange} {later later' : List Call}
    (hhistory : List.Forall₂ SameCall history history') (hop : SameOp exchange.1 exchange'.1)
    (hserves : Serves page forms history exchange later)
    (hserves' : Serves page' forms history' exchange' later') :
    Alike exchange exchange' ∧ List.Forall₂ SameCall later later' := by
  obtain ⟨op, answer⟩ := exchange
  obtain ⟨op', answer'⟩ := exchange'
  have hcalls : ∀ {call call'}, SameCall call call' →
      Alike ⟨.call call, (page.make history call).reply.result⟩
          ⟨.call call', (page'.make history' call').reply.result⟩ ∧
        List.Forall₂ SameCall (page.make history call).history
          (page'.make history' call').history :=
    fun hcall => ⟨h.result hhistory hcall, List.rel_append hhistory (.cons hcall .nil)⟩
  -- each operation is served in one way only
  cases hop with
  | call hcall =>
    cases hserves
    cases hserves'
    exact hcalls hcall
  | same =>
    cases hserves with
    | call call =>
      cases hserves'
      exact hcalls (.same call)
    | clickAwaiting selector timeout next =>
      cases hserves'
      obtain ⟨hresult, hlater⟩ :=
        h.makeWith hhistory (.click selector timeout) (.waitForSelector next)
      exact ⟨alike_clickAwaiting hresult, hlater⟩
    | clickSettling selector timeout =>
      cases hserves'
      obtain ⟨hresult, hlater⟩ := h.makeWith hhistory (.click selector timeout) .waitForLoadIdle
      exact ⟨alike_clickSettling hresult, hlater⟩
    | sleep | form | makeDirectories =>
      cases hserves'
      exact ⟨.same _, hhistory⟩
    | freshName hname =>
      cases hserves' with
      | freshName hname' => exact ⟨.name hname hname', hhistory⟩

/-- Executed in two such surroundings a workflow ends the same but for names, and so are the
calls that it made. -/
theorem PagesAlike.execute (h : PagesAlike page page') {forms : String → Except FlowError Form}
    {command : Command} {ctx : Context} {trace trace' : List Exchange} {ended ended' : Ended}
    {calls calls' : List Call} (hended : Program.Performs (execute command ctx) trace ended)
    (hended' : Program.Performs (execute command ctx) trace' ended')
    (hserves : Program.Along (Serves page forms) [] trace calls)
    (hserves' : Program.Along (Serves page' forms) [] trace' calls') :
    SameEnd ended ended' ∧ List.Forall₂ SameCall calls calls' :=
  (goAlike_execute command ctx).along (S := Serves page forms) (T := Serves page' forms)
    (fun hhistory hop hstep hstep' => h.serves hhistory hop hstep hstep') hended hended' .nil
    hserves hserves'

end

end Jobflow.Workflow
