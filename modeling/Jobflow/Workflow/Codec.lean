import Jobflow.Json.Read
import Jobflow.Json.Print
import Jobflow.Workflow.Command

/-!
Command trees as JSON values: every node is an object with its type under
`kind`, and reading the value of a tree gives the tree back.
-/

namespace Jobflow.Workflow

open Jobflow.Json
open Jobflow.Page (Readiness)
open Jobflow.Time (Duration)

/-! ### Writing -/

def durationValue (d : Duration) : Value :=
  .ofMembers [("secs", .ofNat d.secs), ("nanos", .ofNat d.nanos)]

def durationValue? : Option Duration → Value
  | some d => durationValue d
  | none => .null

def AfterClick.toValue : AfterClick → Value
  | .delay d => .ofMembers [("strategy", .string "delay"), ("duration", durationValue d)]
  | .selector next => .ofMembers [("strategy", .string "selector"), ("selector", .string next)]
  | .networkIdle => .ofMembers [("strategy", .string "network_idle")]
  | .nothing => .ofMembers [("strategy", .string "none")]

namespace Command

mutual

def toValue : Command → Value
  | .sequence children =>
    .ofMembers [("kind", .string "sequence"), ("children", .array (toValues children))]
  | .ifElse condition whenTrue none =>
    .ofMembers [("kind", .string "if_else"), ("condition", toValue condition),
      ("then", toValue whenTrue), ("otherwise", .null)]
  | .ifElse condition whenTrue (some whenFalse) =>
    .ofMembers [("kind", .string "if_else"), ("condition", toValue condition),
      ("then", toValue whenTrue), ("otherwise", toValue whenFalse)]
  | .navigate url readiness =>
    .ofMembers [("kind", .string "navigate"), ("url", .string url),
      ("wait_until", .string readiness.name)]
  | .click selector timeout after =>
    .ofMembers [("kind", .string "click"), ("selector", .string selector),
      ("timeout", durationValue? timeout), ("post_click", after.toValue)]
  | .elementExists selector settle =>
    .ofMembers [("kind", .string "element_exists"), ("selector", .string selector),
      ("timeout", durationValue? settle)]
  | .fillForm formId =>
    .ofMembers [("kind", .string "fill_form"), ("form_id", .string formId)]
  | .exit success message =>
    .ofMembers [("kind", .string "exit"), ("success", .bool success),
      ("message", .ofText? message)]
  | .screenshot pathTemplate =>
    .ofMembers [("kind", .string "screenshot"), ("path_template", .string pathTemplate)]

def toValues : List Command → List Value
  | [] => []
  | child :: rest => toValue child :: toValues rest

end

end Command

/-! ### Reading -/

/-- A length of time from seconds and any number of nanoseconds. -/
def duration (secs nanos : Nat) : Except Error Duration :=
  let total := secs + nanos / 1000000000
  if total ≤ Text.maxU64 then .ok ⟨total, nanos % 1000000000⟩
  else .error (.rejected "overflow deserializing Duration")

def readDuration : Reader Duration :=
  Record.read
    { expected := "struct Duration"
      hidesLength := true
      isStrict := true
      fields :=
        [field "secs" false Prod.fst (fun d n => (some n, d.2)) readU64,
         field "nanos" false Prod.snd (fun d n => (d.1, some n)) readU32] }
    ((none, none) : Option Nat × Option Nat)
    fun (secs, nanos) => do
      duration (← required "secs" secs) (← required "nanos" nanos)

/-- A record with no fields. -/
def readNothing (expected : String) : Reader Unit :=
  Record.read { expected := expected, fields := [] } () .ok

/-- A record with one field, which must be there. -/
def readOne {α : Type} (expected name : String) (reader : Reader α) : Reader α :=
  Record.read
    { expected := expected, fields := [field name false id (fun _ a => some a) reader] }
    none (required name)

def readReadiness : Reader Readiness := fun site doc => do
  let name ← readName (Readiness.all.map Readiness.name) site doc
  return Readiness.ofName name

/-- The place of the body of a tagged value. -/
def bodySite (site : Site) : Site := { site with origin := .body }

def AfterClick.read : Reader AfterClick := fun site doc => do
  let (tag, body) ← readTag "strategy" "internally tagged enum PostClickWait"
    ["delay", "selector", "network_idle", "none"] doc
  let site := bodySite site
  match tag with
  | "delay" => do
    let d ← readOne "struct variant PostClickWait::Delay" "duration" readDuration site body
    return .delay d
  | "selector" => do
    let s ← readOne "struct variant PostClickWait::Selector" "selector" readString site body
    return .selector s
  | "network_idle" => do
    readNothing "unit variant" site body
    return .networkIdle
  | _ => do
    readNothing "unit variant" site body
    return .nothing

namespace Command

def tags : List String :=
  ["sequence", "if_else", "navigate", "click", "element_exists", "fill_form", "exit",
   "screenshot"]

/-- The parts of a tree node as they are read, each of them possibly missing. -/
structure Draft where
  children : Option (List Command) := none
  condition : Option Command := none
  whenTrue : Option Command := none
  whenFalse : Option (Option Command) := none
  text : Option String := none
  readiness : Option Readiness := none
  duration : Option (Option Duration) := none
  after : Option AfterClick := none
  success : Option Bool := none
  message : Option (Option String) := none

namespace Draft

def childrenField (reader : Reader Command) : RecordField Draft :=
  field "children" false children (fun d a => { d with children := some a }) (readList reader)

def conditionField (reader : Reader Command) : RecordField Draft :=
  field "condition" false condition (fun d a => { d with condition := some a }) reader

def whenTrueField (reader : Reader Command) : RecordField Draft :=
  field "then" false whenTrue (fun d a => { d with whenTrue := some a }) reader

def whenFalseField (reader : Reader Command) : RecordField Draft :=
  field "otherwise" false whenFalse (fun d a => { d with whenFalse := some a })
    (readOption reader)

def textField (name : String) : RecordField Draft :=
  field name false text (fun d a => { d with text := some a }) readString

def readinessField : RecordField Draft :=
  field "wait_until" false readiness (fun d a => { d with readiness := some a }) readReadiness

def durationField : RecordField Draft :=
  field "timeout" false duration (fun d a => { d with duration := some a })
    (readOption readDuration)

def afterField : RecordField Draft :=
  field "post_click" false after (fun d a => { d with after := some a }) AfterClick.read

def successField : RecordField Draft :=
  field "success" false success (fun d a => { d with success := some a }) readBool

def messageField : RecordField Draft :=
  field "message" false message (fun d a => { d with message := some a })
    (readOption readString)

end Draft

/-- The fields of a node by its tag, and the node made of them. `reader` reads
the nodes below. -/
def readNode (reader : Reader Command) (tag : String) : Reader Command :=
  let node (variant : String) (fields : List (RecordField Draft))
      (finish : Draft → Except Error Command) : Reader Command :=
    Record.read { expected := "struct variant Command::" ++ variant, fields := fields } {} finish
  match tag with
  | "sequence" => node "Sequence" [Draft.childrenField reader] fun d => do
    return .sequence (← required "children" d.children)
  | "if_else" =>
    node "IfElse" [Draft.conditionField reader, Draft.whenTrueField reader,
      Draft.whenFalseField reader] fun d => do
    return .ifElse (← required "condition" d.condition) (← required "then" d.whenTrue)
      d.whenFalse.join
  | "navigate" => node "Navigate" [Draft.textField "url", Draft.readinessField] fun d => do
    return .navigate (← required "url" d.text) (← required "wait_until" d.readiness)
  | "click" =>
    node "Click" [Draft.textField "selector", Draft.durationField, Draft.afterField] fun d => do
    return .click (← required "selector" d.text) d.duration.join (← required "post_click" d.after)
  | "element_exists" =>
    node "ElementExists" [Draft.textField "selector", Draft.durationField] fun d => do
    return .elementExists (← required "selector" d.text) d.duration.join
  | "fill_form" => node "FillForm" [Draft.textField "form_id"] fun d => do
    return .fillForm (← required "form_id" d.text)
  | "exit" => node "Exit" [Draft.successField, Draft.messageField] fun d => do
    return .exit (← required "success" d.success) d.message.join
  | _ => node "Screenshot" [Draft.textField "path_template"] fun d => do
    return .screenshot (← required "path_template" d.text)

/-- Reads trees of at most `height` levels. -/
def readUpTo : (height : Nat) → Reader Command
  | 0 => fun _ _ => .error (.malformed .tooDeep)
  | height + 1 => fun site doc => do
    let (tag, body) ← readTag "kind" "internally tagged enum Command" tags doc
    readNode (readUpTo height) tag (bodySite site) body

mutual

def valueHeight : Value → Nat
  | .array items => 1 + itemsHeight items
  | .object members => 1 + membersHeight members
  | _ => 1

def itemsHeight : List Value → Nat
  | [] => 0
  | item :: rest => max (valueHeight item) (itemsHeight rest)

def membersHeight : List (String × Value) → Nat
  | [] => 0
  | (_, value) :: rest => max (valueHeight value) (membersHeight rest)

end

/-- The tree a value stands for. Trees are never taller than their values. -/
def ofValue (value : Value) : Except Error Command :=
  decodeAs (readUpTo (valueHeight value)) value

end Command

end Jobflow.Workflow
