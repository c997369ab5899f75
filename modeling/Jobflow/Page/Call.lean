import Jobflow.Time.Duration

/-!
What can be asked of a browser page, and what can go wrong there.
-/

namespace Jobflow.Page

/-- When a navigation counts as finished. -/
inductive Readiness where
  /-- the load event fired -/
  | load
  /-- the document was parsed -/
  | domContentLoaded
  /-- no network activity for a quiet window -/
  | networkIdle
  deriving DecidableEq, Repr

namespace Readiness

def name : Readiness → String
  | .load => "load"
  | .domContentLoaded => "domcontentloaded"
  | .networkIdle => "networkidle"

def all : List Readiness := [.load, .domContentLoaded, .networkIdle]

/-- The condition of that exact name. -/
def named? (s : String) : Option Readiness :=
  all.find? fun r => r.name = s

/-- The condition of that name; unknown names mean the load event. -/
def ofName (s : String) : Readiness :=
  (named? s).getD .load

end Readiness

/-- Why a page call failed. -/
inductive PageError where
  | navigation (detail : String)
  | timeout (detail : String)
  | selectorNotFound (detail : String)
  | interaction (detail : String)
  | session (detail : String)
  | io (detail : String)
  | protocol (detail : String)
  deriving DecidableEq, Repr

namespace PageError

def message : PageError → String
  | .navigation detail => "Navigation failed: " ++ detail
  | .timeout detail => "Timed out: " ++ detail
  | .selectorNotFound detail => "Selector not found: " ++ detail
  | .interaction detail => "Interaction failed: " ++ detail
  | .session detail => "Session error: " ++ detail
  | .io detail => "I/O error: " ++ detail
  | .protocol detail => "Protocol error: " ++ detail

def isTimeout : PageError → Bool
  | .timeout _ => true
  | _ => false

/-- Whether the error means that an element is absent rather than that the
browser broke. -/
def isNotFound : PageError → Bool
  | .selectorNotFound _ | .timeout _ => true
  | _ => false

end PageError

/-- A call on a page. Selectors are CSS selectors. -/
inductive Call where
  | navigate (url : String) (until_ : Readiness)
  | click (selector : String) (timeout : Option Time.Duration)
  | waitForLoadIdle
  | count (selector : String)
  | waitForSelector (selector : String)
  | isVisible (selector : String)
  | isEnabled (selector : String)
  | fill (selector value : String)
  | selectOption (selector value : String)
  | check (selector : String)
  | uncheck (selector : String)
  | setInputFiles (selector path : String)
  | screenshot (path : String)
  deriving DecidableEq, Repr

/-- What a call yields when it does not fail. -/
def Call.Answer : Call → Type
  | .count _ => Nat
  | .waitForSelector _ | .isVisible _ | .isEnabled _ => Bool
  | _ => Unit

/-- How a page answers one call: after `delay` milliseconds, with a result. -/
structure Reply (α : Type) where
  delay : Nat
  result : Except PageError α

/-- A page: an answer to every call, which may depend on all calls before. -/
structure Behaviour where
  answer : (history : List Call) → (call : Call) → Reply call.Answer

end Jobflow.Page
