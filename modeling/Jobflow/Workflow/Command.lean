import Jobflow.Page.Call

/-!
The command tree of a workflow and its rendering as an outline.
-/

namespace Jobflow.Workflow

open Jobflow.Page (Readiness)
open Jobflow.Time (Duration)

/-- The one wait that follows a click. -/
inductive AfterClick where
  /-- sleep after the click -/
  | delay (duration : Duration)
  /-- wait for another selector while clicking -/
  | selector (selector : String)
  /-- wait for the network to settle while clicking -/
  | networkIdle
  | nothing
  deriving DecidableEq, Repr

/-- A workflow: a tree of commands, the same for every run. -/
inductive Command where
  | sequence (children : List Command)
  | ifElse (condition whenTrue : Command) (whenFalse : Option Command)
  | navigate (url : String) (readiness : Readiness)
  /-- the click may have a deadline of its own -/
  | click (selector : String) (timeout : Option Duration) (after : AfterClick)
  /-- the elements may be given some time to settle before they are counted -/
  | elementExists (selector : String) (settle : Option Duration)
  | fillForm (formId : String)
  | exit (success : Bool) (message : Option String)
  | screenshot (pathTemplate : String)
  deriving Repr, Inhabited

/-- How the execution of a node ended, if it did not fail. -/
inductive Flow where
  | continue
  | terminated (success : Bool) (message : Option String)
  deriving DecidableEq, Repr

/-- The directory of screenshots when a workflow names none. -/
def defaultScreenshotPath : String := "logs/$\x7bJobId\x7d/"

namespace Command

def kind : Command → String
  | .sequence _ => "sequence"
  | .ifElse .. => "ifelse"
  | .navigate .. => "navigate"
  | .click .. => "click"
  | .elementExists .. => "exists"
  | .fillForm _ => "fillform"
  | .exit .. => "exit"
  | .screenshot _ => "screenshot"

mutual

def nodeCount : Command → Nat
  | .sequence children => 1 + nodeCounts children
  | .ifElse condition whenTrue none => 1 + nodeCount condition + nodeCount whenTrue
  | .ifElse condition whenTrue (some whenFalse) =>
    1 + nodeCount condition + nodeCount whenTrue + nodeCount whenFalse
  | _ => 1

def nodeCounts : List Command → Nat
  | [] => 0
  | child :: rest => nodeCount child + nodeCounts rest

end

def detail : Command → String
  | .sequence children => toString children.length ++ " step(s)"
  | .ifElse _ _ (some _) => "with else"
  | .ifElse _ _ none => "without else"
  | .navigate url readiness => url ++ " (until " ++ readiness.name ++ ")"
  | .click selector _ (.delay duration) =>
    selector ++ " then sleep " ++ toString duration.secs ++ "s"
  | .click selector _ (.selector next) => selector ++ " awaiting " ++ next
  | .click selector _ .networkIdle => selector ++ " awaiting network idle"
  | .click selector _ .nothing => selector
  | .elementExists selector _ => selector
  | .fillForm formId => formId
  | .exit success (some message) =>
    "success=" ++ toString success ++ " \"" ++ message ++ "\""
  | .exit success none => "success=" ++ toString success
  | .screenshot pathTemplate => pathTemplate

/-- A line of an outline: its depth, the role of the node in its parent, and
the node. -/
structure OutlineLine where
  depth : Nat
  role : String
  kind : String
  detail : String
  deriving DecidableEq, Repr

def OutlineLine.text (line : OutlineLine) : String :=
  String.ofList (List.replicate (2 * line.depth) ' ') ++ line.role ++ line.kind ++ " " ++
    line.detail

mutual

/-- One line for each node, a node before the nodes below it. -/
def outlineLines (depth : Nat) (role : String) : Command → List OutlineLine
  | .sequence children =>
    ⟨depth, role, "sequence", detail (.sequence children)⟩ :: outlineChildren (depth + 1) children
  | .ifElse condition whenTrue none =>
    ⟨depth, role, "ifelse", "without else"⟩ ::
      (outlineLines (depth + 1) "if: " condition ++ outlineLines (depth + 1) "then: " whenTrue)
  | .ifElse condition whenTrue (some whenFalse) =>
    ⟨depth, role, "ifelse", "with else"⟩ ::
      (outlineLines (depth + 1) "if: " condition ++ outlineLines (depth + 1) "then: " whenTrue ++
        outlineLines (depth + 1) "else: " whenFalse)
  | leaf => [⟨depth, role, leaf.kind, leaf.detail⟩]

def outlineChildren (depth : Nat) : List Command → List OutlineLine
  | [] => []
  | child :: rest => outlineLines depth "" child ++ outlineChildren depth rest

end

/-- The tree as indented text, one line a node. -/
def outline (command : Command) : String :=
  String.join ((outlineLines 0 "" command).map fun line => line.text ++ "\n")

end Command

end Jobflow.Workflow
