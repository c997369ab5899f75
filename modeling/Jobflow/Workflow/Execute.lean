import Jobflow.Files.Tree
import Jobflow.Program.Basic
import Jobflow.Workflow.Command
import Jobflow.Workflow.Form
import Jobflow.Workflow.Interpolate

/-!
Execution of a command tree. The nodes run strictly one after another; each
reports whether the run terminated, so that the sequences around it stop. The
execution is a program over a page, a clock, the form definitions and the
screenshot directory.
-/

namespace Jobflow.Workflow

open Jobflow.Page (PageError Readiness)
open Jobflow.Time (Duration)

/-! ### Operations -/

/-- What the execution of a workflow asks of its surroundings. -/
inductive Browse where
  /-- a call on the page -/
  | call (call : Page.Call)
  /-- a click with a wait for another selector alongside -/
  | clickAwaiting (selector : String) (timeout : Option Duration) (next : String)
  /-- a click with a wait for the network to settle alongside -/
  | clickSettling (selector : String) (timeout : Option Duration)
  | sleep (duration : Duration)
  /-- the definition of a form -/
  | form (id : String)
  | makeDirectories (path : Files.Path)
  /-- a file name that was never used before -/
  | freshName
  deriving DecidableEq, Repr

/-- What each operation yields. A click with a wait for a selector yields
whether the selector appeared. -/
def Browse.Answer : Browse → Type
  | .call c => Except PageError c.Answer
  | .clickAwaiting .. => Except PageError Bool
  | .clickSettling .. => Except PageError Unit
  | .sleep _ => Unit
  | .form _ => Except FlowError Form
  | .makeDirectories _ => Except Files.IoError Unit
  | .freshName => String

/-- The interface between a workflow and its surroundings. -/
def browsing : Interface := ⟨Browse, Browse.Answer⟩

/-- A program that drives one page. -/
abbrev Browsing (α : Type) := Program browsing α

def onPage (call : Page.Call) : Browsing (Except PageError call.Answer) :=
  .step (.call call) .done

/-- Clicks and waits for another selector alongside; whether it appeared. -/
def clickAwaiting (selector : String) (timeout : Option Duration) (next : String) :
    Browsing (Except PageError Bool) :=
  .step (.clickAwaiting selector timeout next) .done

def clickSettling (selector : String) (timeout : Option Duration) :
    Browsing (Except PageError Unit) :=
  .step (.clickSettling selector timeout) .done

def sleep (duration : Duration) : Browsing Unit :=
  .step (.sleep duration) .done

def formNamed (id : String) : Browsing (Except FlowError Form) :=
  .step (.form id) .done

def makeDirectories (path : Files.Path) : Browsing (Except Files.IoError Unit) :=
  .step (.makeDirectories path) .done

def freshName : Browsing String :=
  .step .freshName .done

/-- How an execution ended, and the variables at its end. -/
structure Ended where
  result : Except FlowError Flow
  context : Context

/-! ### Steps that may fail -/

/-- Goes on with the value of a successful step; a failure ends the program. -/
def proceed {ε α β : Type} (step : Browsing (Except ε α))
    (next : α → Browsing (Except ε β)) : Browsing (Except ε β) := do
  match ← step with
  | .ok a => next a
  | .error e => return .error e

/-- The step with a page error as a failure of the workflow. -/
def lifted {α : Type} (step : Browsing (Except PageError α)) : Browsing (Except FlowError α) := do
  return (← step).mapError .page

/-! ### Clicks -/

/-- The report that a selector did not appear after a click. -/
def didNotAppear (next selector : String) : FlowError :=
  .page (.timeout ("'" ++ next ++ "' did not appear after clicking '" ++ selector ++ "'"))

/-- A click and the wait that follows it. A wait for a selector that is blank
after substitution is no wait at all. -/
def click (ctx : Context) (selector : String) (timeout : Option Duration) (after : AfterClick) :
    Browsing (Except FlowError Unit) :=
  let plain : Browsing (Except FlowError Unit) := lifted (onPage (.click selector timeout))
  match after with
  | .nothing => plain
  | .delay duration =>
    proceed plain fun _ => do
      sleep duration
      return .ok ()
  | .selector next =>
    let next := interpolate ctx next
    if Text.isBlank next then plain
    else
      proceed (lifted (clickAwaiting selector timeout next)) fun appeared =>
        return if appeared then .ok () else .error (didNotAppear next selector)
  | .networkIdle => lifted (clickSettling selector timeout)

/-! ### Forms -/

/-- Puts a value into a field that is present, visible and enabled. An upload
that fails is passed over. -/
def fillElement (kind : FieldKind) (selector value : String) :
    Browsing (Except PageError Unit) :=
  match kind with
  | .text | .email | .password | .textarea =>
    proceed (onPage (.fill selector "")) fun _ => onPage (.fill selector value)
  | .select => onPage (.selectOption selector value)
  | .radio => onPage (.check (selector ++ "[value='" ++ value ++ "']"))
  | .checkbox =>
    match parseCheckbox value with
    | some true => onPage (.check selector)
    | some false => onPage (.uncheck selector)
    | none => return .ok ()
  | .file => do
    let _ ← onPage (.setInputFiles selector value)
    return .ok ()

/-- Fills one field; a field that is absent, hidden or disabled is skipped. -/
def fillField (ctx : Context) (field : FormField) (kind : FieldKind) :
    Browsing (Except PageError Unit) :=
  let selector := interpolate ctx field.selector
  proceed (onPage (.count selector)) fun (count : Nat) =>
    if count = 0 then return .ok ()
    else
      proceed (onPage (.isVisible selector)) fun (visible : Bool) =>
        proceed (onPage (.isEnabled selector)) fun (enabled : Bool) =>
          if visible && enabled then fillElement kind selector (interpolate ctx field.value)
          else return .ok ()

/-- Fills fields one after another; a failure at one does not stop the others. -/
def fillFields (ctx : Context) : List (FormField × FieldKind) → Browsing Unit
  | [] => return ()
  | (field, kind) :: rest => do
    let _ ← fillField ctx field kind
    fillFields ctx rest

/-- The fields with their kinds, or the report on the first unsupported type. -/
def fieldKinds : List FormField → Except FlowError (List (FormField × FieldKind))
  | [] => .ok []
  | field :: rest => do
    let kind ← field.kind
    let kinds ← fieldKinds rest
    return (field, kind) :: kinds

/-- Fills a form. All field types are checked before the page is touched. -/
def fillForm (ctx : Context) (id : String) : Browsing (Except FlowError Unit) :=
  proceed (formNamed id) fun form =>
    match fieldKinds form.fields with
    | .error e => return .error e
    | .ok fields => do
      fillFields ctx fields
      return .ok ()

/-! ### Screenshots -/

/-- Saves a screenshot under a fresh name in a directory that is made if it is
missing. -/
def takeScreenshot (ctx : Context) (pathTemplate : String) : Browsing (Except FlowError Unit) := do
  let directory := interpolate ctx pathTemplate
  let name ← freshName
  let path := Files.Path.join directory (name ++ ".png")
  let shoot := lifted (onPage (.screenshot path))
  if directory = "" then shoot
  else
    match ← makeDirectories directory with
    | .ok () => shoot
    | .error cause => return .error (.io cause.message)

/-! ### Trees -/

/-- The end of a node that changes no variable and lets the run go on. -/
def continued (ctx : Context) (step : Browsing (Except FlowError Unit)) : Browsing Ended := do
  match ← step with
  | .ok () => return ⟨.ok .continue, ctx⟩
  | .error e => return ⟨.error e, ctx⟩

/-- The verdict of an element count; a count that fails counts as none. -/
def anyCounted : Except PageError Nat → Bool
  | .ok count => 0 < count
  | .error _ => false

/-- Counts elements, after the time they get to settle, and binds the verdict. -/
def judge (ctx : Context) (selector : String) (settle : Option Duration) : Browsing Ended := do
  let selector := interpolate ctx selector
  if let some duration := settle then sleep duration
  let counted ← onPage (.count selector)
  return ⟨.ok .continue, ctx.setFlag conditionResult (anyCounted counted)⟩

/-- The variables after an exit. -/
def exitContext (ctx : Context) (success : Bool) (message : Option String) : Context :=
  let ctx := ctx.setFlag finishedSuccessfully success
  match message with
  | some message => ctx.setText finishedMessage message
  | none => ctx

/-- Goes on after a node that lets the run go on; any other end is passed on. -/
def Ended.andThen (ended : Ended) (next : Context → Browsing Ended) : Browsing Ended :=
  match ended.result with
  | .ok .continue => next ended.context
  | _ => return ended

/-- Goes on with one of two trees, by the verdict of a condition. -/
def byVerdict (whenTrue whenFalse : Context → Browsing Ended) (ctx : Context) : Browsing Ended :=
  match ctx.flag? conditionResult with
  | some true => whenTrue ctx
  | some false => whenFalse ctx
  | none => return ⟨.error .conditionNotSet, ctx⟩

mutual

def execute : Command → Context → Browsing Ended
  | .sequence children, ctx => executeAll children ctx
  | .ifElse condition whenTrue whenFalse, ctx => do
    let judged ← execute condition (ctx.remove conditionResult)
    judged.andThen (byVerdict (execute whenTrue) (executeElse whenFalse))
  | .navigate url readiness, ctx =>
    continued ctx (lifted (onPage (.navigate (interpolate ctx url) readiness)))
  | .click selector timeout after, ctx =>
    continued ctx (click ctx (interpolate ctx selector) timeout after)
  | .elementExists selector settle, ctx => judge ctx selector settle
  | .fillForm id, ctx => continued ctx (fillForm ctx (interpolate ctx id))
  | .exit success message, ctx =>
    let message := message.filter (· ≠ "")
    return ⟨.ok (.terminated success message), exitContext ctx success message⟩
  | .screenshot pathTemplate, ctx => continued ctx (takeScreenshot ctx pathTemplate)

/-- Executes nodes in order up to the first that does not let the run go on. -/
def executeAll : List Command → Context → Browsing Ended
  | [], ctx => return ⟨.ok .continue, ctx⟩
  | child :: rest, ctx => do
    let ended ← execute child ctx
    ended.andThen (executeAll rest)

/-- Executes the tree of a branch that may be missing. -/
def executeElse : Option Command → Context → Browsing Ended
  | none, ctx => return ⟨.ok .continue, ctx⟩
  | some command, ctx => execute command ctx

end

end Jobflow.Workflow
