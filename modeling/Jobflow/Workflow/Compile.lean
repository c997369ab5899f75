import Jobflow.Json.Read
import Jobflow.Workflow.Command

/-!
Compilation of workflow documents. A document is a JSON text; every node is an
object whose `type`, in letters of any case, selects its kind and with it the
fields that are looked at. The first node in document order that breaks the
grammar is reported with the path that leads to it.
-/

namespace Jobflow.Workflow

open Jobflow.Json
open Jobflow.Page (Readiness)
open Jobflow.Time (Duration)

/-- One step from a node of a document to a node below it. -/
inductive Step where
  | command (index : Nat)
  | condition
  | whenTrue
  | whenFalse
  deriving DecidableEq, Repr

def Step.text : Step → String
  | .command index => ".commands[" ++ toString index ++ "]"
  | .condition => ".condition"
  | .whenTrue => ".then"
  | .whenFalse => ".else"

/-- The way from the root of a document to one of its nodes. -/
abbrev NodePath := List Step

def pathText (path : NodePath) : String :=
  "$" ++ String.join (path.map Step.text)

/-- What is wrong with a node itself. -/
inductive NodeFault where
  | notAnObject
  | typeNotString
  | typeMissing
  | unknownType (name : String)
  | commandsNotArray
  | conditionMissing
  | thenMissing
  | successMissing
  | fieldMissing (field : String)
  | fieldBlank (field : String)
  | notString (field : String)
  | notBoolean (field : String)
  | notInteger (field : String)
  | notNatural (field : String)
  deriving DecidableEq, Repr

def NodeFault.message : NodeFault → String
  | .notAnObject => "node must be a JSON object"
  | .typeNotString => "'type' must be a string"
  | .typeMissing => "node is missing 'type'"
  | .unknownType name => "unknown command type '" ++ name ++ "'"
  | .commandsNotArray => "'commands' must be an array"
  | .conditionMissing => "ifelse is missing 'condition'"
  | .thenMissing => "ifelse is missing 'then'"
  | .successMissing => "exit is missing 'success'"
  | .fieldMissing field => "missing required field '" ++ field ++ "'"
  | .fieldBlank field => "'" ++ field ++ "' must not be empty"
  | .notString field => "'" ++ field ++ "' must be a string"
  | .notBoolean field => "'" ++ field ++ "' must be a boolean"
  | .notInteger field => "'" ++ field ++ "' must be an integer"
  | .notNatural field => "'" ++ field ++ "' must be a non-negative integer"

/-- Why a document is no workflow. -/
inductive CompileError where
  | notJson (cause : Json.Error)
  | atNode (path : NodePath) (fault : NodeFault)
  deriving DecidableEq, Repr

def CompileError.message : CompileError → String
  | .notJson cause => cause.message
  | .atNode path fault => pathText path ++ ": " ++ fault.message

/-! ### Fields -/

abbrev Node := Dict Value

/-- The value of a field, unless it is absent or null. -/
def present? (node : Node) (field : String) : Option Value :=
  match Dict.find? field node with
  | some .null => none
  | found => found

/-- A string that may be absent or null. -/
def optionalText (node : Node) (field : String) : Except NodeFault (Option String) :=
  match present? node field with
  | none => .ok none
  | some (.string s) => .ok (some s)
  | some _ => .error (.notString field)

/-- A string that must be there and not blank. -/
def requiredText (node : Node) (field : String) : Except NodeFault String := do
  match ← optionalText node field with
  | none => .error (.fieldMissing field)
  | some s => if Text.isBlank s then .error (.fieldBlank field) else .ok s

/-- A natural number of 64 bits, given as a number or in a string. -/
def optionalNat (node : Node) (field : String) : Except NodeFault (Option Nat) :=
  match present? node field with
  | none => .ok none
  | some (.number (.whole n)) =>
    if 0 ≤ n then .ok (some n.toNat) else .error (.notNatural field)
  | some (.number (.real _)) => .error (.notNatural field)
  | some (.string s) =>
    match Text.readU64? (Text.trim s) with
    | some n => .ok (some n)
    | none => .error (.notNatural field)
  | some _ => .error (.notInteger field)

def optionalMillis (node : Node) (field : String) : Except NodeFault (Option Duration) := do
  return (← optionalNat node field).map Duration.ofMillis

/-- A boolean that may be absent or null, which mean false. -/
def optionalFlag (node : Node) (field : String) : Except NodeFault Bool :=
  match present? node field with
  | none => .ok false
  | some (.bool b) => .ok b
  | some _ => .error (.notBoolean field)

/-- The text unless it is empty. -/
def nonEmpty : Option String → Option String
  | some s => if s = "" then none else some s
  | none => none

/-! ### Leaves -/

def compileNavigate (node : Node) : Except NodeFault Command := do
  let url ← requiredText node "url"
  let readiness ← optionalText node "waitUntil"
  return .navigate url ((readiness.map Readiness.ofName).getD .load)

/-- The wait after a click; of several that are asked for a delay wins over a
selector, and a selector over the network. -/
def waitAfter (delay : Option Nat) (next : Option String) (networkIdle : Bool) : AfterClick :=
  match delay, next, networkIdle with
  | some secs, _, _ => .delay (Duration.ofSeconds secs)
  | none, some next, _ => .selector next
  | none, none, true => .networkIdle
  | none, none, false => .nothing

def compileClick (node : Node) : Except NodeFault Command := do
  let selector ← requiredText node "selector"
  let timeout ← optionalMillis node "customTimeout"
  let delay ← optionalNat node "waitForTimeoutSeconds"
  let next ← optionalText node "waitForSelector"
  let networkIdle ← optionalFlag node "waitForNetworkIdle"
  return .click selector timeout (waitAfter delay (nonEmpty next) networkIdle)

def compileExists (node : Node) : Except NodeFault Command := do
  let selector ← requiredText node "selector"
  let settle ← optionalMillis node "timeout"
  return .elementExists selector settle

def compileFillForm (node : Node) : Except NodeFault Command := do
  return .fillForm (← requiredText node "formId")

def compileExit (node : Node) : Except NodeFault Command := do
  let success ← match Dict.find? "success" node with
    | some (.bool b) => .ok b
    | some _ => .error (.notBoolean "success")
    | none => .error .successMissing
  let message ← optionalText node "message"
  return .exit success (nonEmpty message)

def compileScreenshot (node : Node) : Except NodeFault Command :=
  match present? node "path" with
  | none => .ok (.screenshot defaultScreenshotPath)
  | some _ => do return .screenshot (← requiredText node "path")

/-! ### Trees -/

/-- The kind of a node, in small letters. -/
def nodeKind (node : Node) : Except NodeFault String :=
  match Dict.find? "type" node with
  | some (.string kind) => .ok (Text.lower kind)
  | some _ => .error .typeNotString
  | none => .error .typeMissing

/-- A node of a kind that has no nodes below it. -/
def compileLeaf (kind : String) (node : Node) : Except NodeFault Command :=
  match kind with
  | "navigate" => compileNavigate node
  | "click" => compileClick node
  | "exists" => compileExists node
  | "fillform" => compileFillForm node
  | "exit" => compileExit node
  | "screenshot" => compileScreenshot node
  | other => .error (.unknownType other)

/-- A fault of the node at `path`. -/
def located {α : Type} (path : NodePath) : Except NodeFault α → Except CompileError α
  | .ok a => .ok a
  | .error fault => .error (.atNode path fault)

theorem Dict.sizeOf_lt_of_find? {key : String} {d : Dict Value} {v : Value}
    (h : Dict.find? key d = some v) : sizeOf v < sizeOf d := by
  induction d with
  | nil => simp [Dict.find?] at h
  | cons binding rest ih =>
    obtain ⟨k, w⟩ := binding
    simp only [Dict.find?] at h
    split at h
    · cases h
      simp only [List.cons.sizeOf_spec, Prod.mk.sizeOf_spec]
      omega
    · have := ih h
      simp only [List.cons.sizeOf_spec, Prod.mk.sizeOf_spec]
      omega

theorem sizeOf_lt_of_present? {node : Node} {field : String} {v : Value}
    (h : present? node field = some v) : sizeOf v < sizeOf node := by
  unfold present? at h
  split at h
  · cases h
  · exact Dict.sizeOf_lt_of_find? h

mutual

/-- The tree of the node that `value` is, found at `path`. -/
def compileNode (path : NodePath) (value : Value) : Except CompileError Command :=
  match value with
  | .object node => do
    match ← located path (nodeKind node) with
    | "sequence" =>
      match _h : present? node "commands" with
      | none => return .sequence []
      | some (.array items) => return .sequence (← compileNodes path 0 items)
      | some _ => .error (.atNode path .commandsNotArray)
    | "ifelse" => do
      let condition ← match _h : present? node "condition" with
        | none => .error (.atNode path .conditionMissing)
        | some v => compileNode (path ++ [.condition]) v
      let whenTrue ← match _h : present? node "then" with
        | none => .error (.atNode path .thenMissing)
        | some v => compileNode (path ++ [.whenTrue]) v
      match _h : present? node "else" with
      | none => return .ifElse condition whenTrue none
      | some v => return .ifElse condition whenTrue (some (← compileNode (path ++ [.whenFalse]) v))
    | kind => located path (compileLeaf kind node)
  | _ => .error (.atNode path .notAnObject)
termination_by sizeOf value
decreasing_by
  all_goals
    have := sizeOf_lt_of_present? _h
    simp only [Value.array.sizeOf_spec, Value.object.sizeOf_spec] at *
    omega

/-- The trees of the commands of the sequence at `path`, from number `index` on. -/
def compileNodes (path : NodePath) (index : Nat) (values : List Value) :
    Except CompileError (List Command) :=
  match values with
  | [] => .ok []
  | value :: rest => do
    let child ← compileNode (path ++ [.command index]) value
    let children ← compileNodes path (index + 1) rest
    return child :: children
termination_by sizeOf values

end

def compile (text : String) : Except CompileError Command :=
  match Json.parse text with
  | .ok value => compileNode [] value
  | .error cause => .error (.notJson cause)

end Jobflow.Workflow
