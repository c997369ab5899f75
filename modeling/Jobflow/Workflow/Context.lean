import Jobflow.Json.Read

/-!
The variables of one workflow run. A variable is a text or a flag, and looking
one up as the other finds nothing.
-/

namespace Jobflow.Workflow

/-- What a variable is bound to. -/
inductive Binding where
  | text (s : String)
  | flag (b : Bool)
  deriving DecidableEq, Repr

namespace Binding

def display : Binding → String
  | .text s => s
  | .flag b => toString b

def toValue : Binding → Json.Value
  | .text s => .string s
  | .flag b => .bool b

end Binding

/-- The variables of a run, each bound once. -/
structure Context where
  bindings : Dict Binding
  ordered : bindings.Ordered
  deriving DecidableEq, Repr

/-- Bound by an exit; its presence means that the run ended at an exit. -/
def finishedSuccessfully : String := "WorkflowFinishedSuccessfully"

/-- Bound by an exit that has a message. -/
def finishedMessage : String := "WorkflowFinishedMessage"

/-- The verdict of a condition. -/
def conditionResult : String := "ConditionResult"

def jobUrl : String := "JobUrl"

namespace Context

def empty : Context := ⟨[], .nil⟩

def get? (ctx : Context) (name : String) : Option Binding :=
  Dict.find? name ctx.bindings

/-- The text bound to `name`, if it is a text. -/
def text? (ctx : Context) (name : String) : Option String :=
  match ctx.get? name with
  | some (.text s) => some s
  | _ => none

/-- The flag bound to `name`, if it is a flag. -/
def flag? (ctx : Context) (name : String) : Option Bool :=
  match ctx.get? name with
  | some (.flag b) => some b
  | _ => none

def set (ctx : Context) (name : String) (value : Binding) : Context :=
  ⟨Dict.insert name value ctx.bindings, Dict.ordered_insert ctx.ordered name value⟩

def setText (ctx : Context) (name value : String) : Context := ctx.set name (.text value)

def setFlag (ctx : Context) (name : String) (value : Bool) : Context := ctx.set name (.flag value)

def remove (ctx : Context) (name : String) : Context :=
  ⟨Dict.erase name ctx.bindings, Dict.ordered_erase ctx.ordered name⟩

def contains (ctx : Context) (name : String) : Bool :=
  (ctx.get? name).isSome

def size (ctx : Context) : Nat := ctx.bindings.length

def entries (ctx : Context) : List (String × Binding) := ctx.bindings

/-- Whether the run ended successfully, and its message. -/
def outcome (ctx : Context) : Bool × String :=
  ((ctx.flag? finishedSuccessfully).getD false, (ctx.text? finishedMessage).getD "")

/-- The context with these bindings, later ones replacing earlier ones. -/
def ofBindings (bindings : List (String × Binding)) : Context :=
  ⟨Dict.ofList bindings, Dict.ordered_ofList bindings⟩

/-- The variables as a JSON object. -/
def variablesValue (ctx : Context) : Json.Value :=
  .object (Dict.mapValues Binding.toValue ctx.bindings)

def toValue (ctx : Context) : Json.Value :=
  .object [("variables", ctx.variablesValue)]

/-- Reads a string or a boolean; other values are well-formed JSON but no
binding. -/
def readBinding : Json.Reader Binding := fun site doc => do
  match ← Json.malformed (doc.toValue site.depth) with
  | .string s => return .text s
  | .bool b => return .flag b
  | _ => .error (.noAlternative "ContextValue")

def read : Json.Reader Context :=
  Json.Record.read
    { expected := "struct ExecutionContext"
      fields := [Json.field "variables" false id (fun _ d => some d) (Json.readDict readBinding)] }
    none
    fun draft => do return ofBindings (← Json.required "variables" draft)

end Context

end Jobflow.Workflow
