import Jobflow.Dict
import Jobflow.Page.Call
import Jobflow.Text.Basic

/-!
Scripted pages: what is on the page is described up front, and every call is
answered from the description. Faults laid over a page delay its answers or
replace successful ones by failures.
-/

namespace Jobflow.Rehearsal

open Jobflow.Page

/-- The elements a selector matches. -/
structure Element where
  count : Nat
  visible : Bool
  enabled : Bool
  deriving DecidableEq, Repr

/-- The description of a page. -/
structure Script where
  elements : Dict Element
  /-- selectors on which every interaction fails -/
  failingSelectors : List String
  /-- parts of addresses that cannot be reached -/
  failingUrls : List String
  screenshotsFail : Bool
  deriving DecidableEq, Repr

namespace Script

def blank : Script := ⟨[], [], [], false⟩

def withElement (script : Script) (selector : String) (element : Element) : Script :=
  { script with elements := Dict.insert selector element script.elements }

/-- The number of elements that a selector matches. -/
def count (script : Script) (selector : String) : Nat :=
  match Dict.find? selector script.elements with
  | some element => element.count
  | none => 0

/-- Whether a selector matches an element with some property. -/
def has (script : Script) (selector : String) (property : Element → Bool) : Bool :=
  match Dict.find? selector script.elements with
  | some element => 0 < element.count && property element
  | none => false

/-- The result of an interaction with the element a selector matches. -/
def interact (script : Script) (selector : String) : Except PageError Unit :=
  if selector ∈ script.failingSelectors then
    .error (.interaction ("scripted failure for '" ++ selector ++ "'"))
  else .ok ()

def answer (script : Script) : (call : Call) → Except PageError call.Answer
  | .navigate url _ =>
    if script.failingUrls.any fun part => Text.contains url part then
      .error (.navigation ("net::ERR_FAILED at " ++ url))
    else .ok ()
  | .click selector _ => script.interact selector
  | .waitForLoadIdle => .ok ()
  | .count selector => .ok (script.count selector)
  | .waitForSelector selector => .ok (script.has selector fun _ => true)
  | .isVisible selector => .ok (script.has selector Element.visible)
  | .isEnabled selector => .ok (script.has selector Element.enabled)
  | .fill selector _ => script.interact selector
  | .selectOption selector _ => script.interact selector
  | .check selector => script.interact selector
  | .uncheck selector => script.interact selector
  | .setInputFiles selector _ => script.interact selector
  | .screenshot path =>
    if script.screenshotsFail then
      .error (.io ("scripted screenshot failure for " ++ path))
    else .ok ()

end Script

/-! ### Faults -/

/-- The name of a call, as faults refer to it. -/
def callName : Call → String
  | .navigate .. => "navigate"
  | .click .. => "click"
  | .waitForLoadIdle => "wait_for_load_idle"
  | .count _ => "count"
  | .waitForSelector _ => "wait_for_selector"
  | .isVisible _ => "is_visible"
  | .isEnabled _ => "is_enabled"
  | .fill .. => "fill"
  | .selectOption .. => "select_option"
  | .check _ => "check"
  | .uncheck _ => "uncheck"
  | .setInputFiles .. => "set_input_files"
  | .screenshot _ => "screenshot"

/-- The selector of a call, or the address of a navigation. -/
def callTarget : Call → String
  | .navigate url _ => url
  | .click selector _ | .count selector | .waitForSelector selector | .isVisible selector
  | .isEnabled selector | .fill selector _ | .selectOption selector _ | .check selector
  | .uncheck selector | .setInputFiles selector _ => selector
  | .waitForLoadIdle | .screenshot _ => ""

/-- A fault: which calls it applies to, how long it holds them up, and whether
they fail. -/
structure Fault where
  name : String
  target : Option String
  /-- milliseconds -/
  delay : Nat
  error : Option PageError
  deriving DecidableEq, Repr

/-- The first fault that applies to a call of this name and target. -/
def faultFor? (faults : List Fault) (name target : String) : Option Fault :=
  faults.find? fun fault => fault.name == name && (fault.target.all (· == target))

/-- A result with the fault that applies to it; failures are left alone. -/
def withFault {α : Type} (fault : Option Fault) (result : Except PageError α) : Reply α :=
  match result, fault with
  | .ok a, some fault =>
    ⟨fault.delay, match fault.error with
      | some e => .error e
      | none => .ok a⟩
  | result, _ => ⟨0, result⟩

/-- The page that a script and faults describe. It answers a call the same way
at any time. -/
def scripted (script : Script) (faults : List Fault) : Behaviour where
  answer _ call := withFault (faultFor? faults (callName call) (callTarget call))
    (script.answer call)

end Jobflow.Rehearsal
