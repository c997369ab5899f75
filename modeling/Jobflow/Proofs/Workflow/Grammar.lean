import Jobflow.Proofs.Json.Range
import Jobflow.Workflow.Compile

/-!
The grammar of workflow documents, as a relation between JSON values and trees.
What a node itself needs is said apart from where the nodes of a document are, so
that acceptance is a condition on every node that can be reached from the root.
The compiler accepts exactly the documents of the grammar and yields their trees.
-/

namespace Jobflow.Workflow

open Jobflow.Json
open Jobflow.Page (Readiness)
open Jobflow.Time (Duration)

/-! ### Fields of a node -/

/-- The field is absent or null. -/
def Lacks (node : Node) (field : String) : Prop :=
  Dict.find? field node = none ∨ Dict.find? field node = some .null

/-- The field has a value other than null. -/
def Holds (node : Node) (field : String) (value : Value) : Prop :=
  Dict.find? field node = some value ∧ value ≠ .null

/-- The type of the node is that kind, in letters of any case. -/
def OfKind (node : Node) (kind : String) : Prop :=
  ∃ name, Dict.find? "type" node = some (.string name) ∧ Text.lower name = kind

/-- A string that is there and not blank. -/
def GivesText (node : Node) (field text : String) : Prop :=
  Dict.find? field node = some (.string text) ∧ ¬ Text.isBlank text

/-- A string that may be absent or null. -/
inductive MayGiveText (node : Node) (field : String) : Option String → Prop
  | lacks : Lacks node field → MayGiveText node field none
  | text {s : String} : Dict.find? field node = some (.string s) → MayGiveText node field (some s)

/-- A boolean that may be absent or null, which mean false. -/
inductive MayGiveFlag (node : Node) (field : String) : Bool → Prop
  | lacks : Lacks node field → MayGiveFlag node field false
  | flag {b : Bool} : Dict.find? field node = some (.bool b) → MayGiveFlag node field b

/-- The text is a natural number in decimal, with or without a plus sign. -/
def WritesNat (text : String) (n : Nat) : Prop :=
  ∃ digits, digits ≠ [] ∧ (∀ c ∈ digits, Text.isDigit c) ∧
    (text.toList = digits ∨ text.toList = '+' :: digits) ∧ Text.decimalValue digits = n

/-- A natural number of 64 bits, as a number or in a string, that may be absent or
null. -/
inductive MayGiveNat (node : Node) (field : String) : Option Nat → Prop
  | lacks : Lacks node field → MayGiveNat node field none
  | number {n : Nat} : Dict.find? field node = some (.number (.whole n)) → n ≤ Text.maxU64 →
      MayGiveNat node field (some n)
  | text {s : String} {n : Nat} : Dict.find? field node = some (.string s) →
      WritesNat (Text.trim s) n → n ≤ Text.maxU64 → MayGiveNat node field (some n)

/-- A length of time in milliseconds that may be absent or null. -/
inductive MayGiveMillis (node : Node) (field : String) : Option Duration → Prop
  | lacks : MayGiveNat node field none → MayGiveMillis node field none
  | millis {n : Nat} {d : Duration} : MayGiveNat node field (some n) →
      d.secs * 1000000000 + d.nanos = n * 1000000 → d.nanos < 1000000000 →
      MayGiveMillis node field (some d)

/-- When a navigation counts as finished: an unknown name means the load event. -/
def readinessOf : Option String → Readiness
  | some "domcontentloaded" => .domContentLoaded
  | some "networkidle" => .networkIdle
  | _ => .load

/-- The wait after a click: a delay wins over a selector that is not empty, and that
over the network. -/
inductive Awaits : Option Nat → Option String → Bool → AfterClick → Prop
  | delay (secs : Nat) (next : Option String) (idle : Bool) :
      Awaits (some secs) next idle (.delay ⟨secs, 0⟩)
  | selector {next : String} (idle : Bool) : next ≠ "" →
      Awaits none (some next) idle (.selector next)
  | networkIdle {next : Option String} : next.getD "" = "" → Awaits none next true .networkIdle
  | nothing {next : Option String} : next.getD "" = "" → Awaits none next false .nothing

/-- The message of an exit, unless it is empty. -/
inductive Tells : Option String → Option String → Prop
  | message {s : String} : s ≠ "" → Tells (some s) (some s)
  | nothing {message : Option String} : message.getD "" = "" → Tells message none

/-! ### Trees -/

mutual

/-- `Denotes value command`: the grammar reads the value as this tree. -/
inductive Denotes : Value → Command → Prop
  | noCommands {node : Node} : OfKind node "sequence" → Lacks node "commands" →
      Denotes (.object node) (.sequence [])
  | sequence {node : Node} {items : List Value} {children : List Command} :
      OfKind node "sequence" → Dict.find? "commands" node = some (.array items) →
      DenoteAll items children → Denotes (.object node) (.sequence children)
  | withoutElse {node : Node} {c t : Value} {condition whenTrue : Command} :
      OfKind node "ifelse" → Holds node "condition" c → Holds node "then" t → Lacks node "else" →
      Denotes c condition → Denotes t whenTrue →
      Denotes (.object node) (.ifElse condition whenTrue none)
  | withElse {node : Node} {c t e : Value} {condition whenTrue whenFalse : Command} :
      OfKind node "ifelse" → Holds node "condition" c → Holds node "then" t →
      Holds node "else" e → Denotes c condition → Denotes t whenTrue → Denotes e whenFalse →
      Denotes (.object node) (.ifElse condition whenTrue (some whenFalse))
  | navigate {node : Node} {url : String} {name : Option String} :
      OfKind node "navigate" → GivesText node "url" url → MayGiveText node "waitUntil" name →
      Denotes (.object node) (.navigate url (readinessOf name))
  | click {node : Node} {selector : String} {timeout : Option Duration} {delay : Option Nat}
      {next : Option String} {idle : Bool} {after : AfterClick} :
      OfKind node "click" → GivesText node "selector" selector →
      MayGiveMillis node "customTimeout" timeout → MayGiveNat node "waitForTimeoutSeconds" delay →
      MayGiveText node "waitForSelector" next → MayGiveFlag node "waitForNetworkIdle" idle →
      Awaits delay next idle after → Denotes (.object node) (.click selector timeout after)
  | elementExists {node : Node} {selector : String} {settle : Option Duration} :
      OfKind node "exists" → GivesText node "selector" selector →
      MayGiveMillis node "timeout" settle → Denotes (.object node) (.elementExists selector settle)
  | fillForm {node : Node} {id : String} : OfKind node "fillform" → GivesText node "formId" id →
      Denotes (.object node) (.fillForm id)
  | exit {node : Node} {success : Bool} {given message : Option String} :
      OfKind node "exit" → Dict.find? "success" node = some (.bool success) →
      MayGiveText node "message" given → Tells given message →
      Denotes (.object node) (.exit success message)
  | defaultPath {node : Node} : OfKind node "screenshot" → Lacks node "path" →
      Denotes (.object node) (.screenshot "logs/$\x7bJobId\x7d/")
  | screenshot {node : Node} {path : String} : OfKind node "screenshot" →
      GivesText node "path" path → Denotes (.object node) (.screenshot path)

/-- The values of a list, read one by one. -/
inductive DenoteAll : List Value → List Command → Prop
  | nil : DenoteAll [] []
  | cons {value : Value} {values : List Value} {command : Command} {commands : List Command} :
      Denotes value command → DenoteAll values commands →
      DenoteAll (value :: values) (command :: commands)

end

/-! ### Nodes of a document -/

/-- The fields of the node are as its kind demands, whatever the nodes below it. -/
inductive WellFormed (node : Node) : Prop
  | sequence : OfKind node "sequence" →
      (Lacks node "commands" ∨ ∃ items, Dict.find? "commands" node = some (.array items)) →
      WellFormed node
  | ifElse {condition whenTrue : Value} : OfKind node "ifelse" →
      Holds node "condition" condition → Holds node "then" whenTrue → WellFormed node
  | navigate {url : String} {name : Option String} : OfKind node "navigate" →
      GivesText node "url" url → MayGiveText node "waitUntil" name → WellFormed node
  | click {selector : String} {timeout : Option Duration} {delay : Option Nat}
      {next : Option String} {idle : Bool} : OfKind node "click" →
      GivesText node "selector" selector → MayGiveMillis node "customTimeout" timeout →
      MayGiveNat node "waitForTimeoutSeconds" delay → MayGiveText node "waitForSelector" next →
      MayGiveFlag node "waitForNetworkIdle" idle → WellFormed node
  | elementExists {selector : String} {settle : Option Duration} : OfKind node "exists" →
      GivesText node "selector" selector → MayGiveMillis node "timeout" settle → WellFormed node
  | fillForm {id : String} : OfKind node "fillform" → GivesText node "formId" id → WellFormed node
  | exit {success : Bool} {message : Option String} : OfKind node "exit" →
      Dict.find? "success" node = some (.bool success) → MayGiveText node "message" message →
      WellFormed node
  | screenshot : OfKind node "screenshot" →
      (Lacks node "path" ∨ ∃ path, GivesText node "path" path) → WellFormed node

/-- The value that one step from the node leads to. -/
inductive Below (node : Node) : Step → Value → Prop
  | command {items : List Value} {index : Nat} {value : Value} : OfKind node "sequence" →
      Dict.find? "commands" node = some (.array items) → items[index]? = some value →
      Below node (.command index) value
  | condition {value : Value} : OfKind node "ifelse" → Holds node "condition" value →
      Below node .condition value
  | whenTrue {value : Value} : OfKind node "ifelse" → Holds node "then" value →
      Below node .whenTrue value
  | whenFalse {value : Value} : OfKind node "ifelse" → Holds node "else" value →
      Below node .whenFalse value

/-- The value that is reached from the root along the path. -/
inductive Reaches : Value → NodePath → Value → Prop
  | here (value : Value) : Reaches value [] value
  | under {node : Node} {step : Step} {child value : Value} {path : NodePath} :
      Below node step child → Reaches child path value →
      Reaches (.object node) (step :: path) value

namespace Command

mutual

/-- The paths to the nodes of a tree, a node before the nodes below it. -/
def nodePaths : Command → List NodePath
  | .sequence children => [] :: childPaths 0 children
  | .ifElse condition whenTrue none =>
    [] :: ((nodePaths condition).map (.condition :: ·) ++ (nodePaths whenTrue).map (.whenTrue :: ·))
  | .ifElse condition whenTrue (some whenFalse) =>
    [] :: ((nodePaths condition).map (.condition :: ·) ++
      ((nodePaths whenTrue).map (.whenTrue :: ·) ++ (nodePaths whenFalse).map (.whenFalse :: ·)))
  | _ => [[]]

/-- The same for the commands of a sequence, from number `index` on. -/
def childPaths (index : Nat) : List Command → List NodePath
  | [] => []
  | child :: rest => (nodePaths child).map (.command index :: ·) ++ childPaths (index + 1) rest

end

end Command

end Jobflow.Workflow
