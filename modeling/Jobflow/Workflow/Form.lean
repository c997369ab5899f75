import Jobflow.Json.Read
import Jobflow.Json.Print
import Jobflow.Workflow.Error

/-!
Form definitions: which fields of a page are filled with what. The names of
properties in a form document match in any case.
-/

namespace Jobflow.Workflow

open Jobflow.Json

/-- One field of a form; the type is checked when the form is filled. -/
structure FormField where
  name : String
  selector : String
  value : String
  typeName : String
  deriving DecidableEq, Repr

/-- The fields that one step of a workflow fills. -/
structure Form where
  id : String
  name : String
  fields : List FormField
  deriving DecidableEq, Repr

/-- What kind of element a field is. -/
inductive FieldKind where
  | text
  | email
  | password
  | textarea
  | select
  | radio
  | checkbox
  | file
  deriving DecidableEq, Repr

namespace FieldKind

def name : FieldKind → String
  | .text => "text"
  | .email => "email"
  | .password => "password"
  | .textarea => "textarea"
  | .select => "select"
  | .radio => "radio"
  | .checkbox => "checkbox"
  | .file => "file"

def all : List FieldKind :=
  [.text, .email, .password, .textarea, .select, .radio, .checkbox, .file]

/-- The kind of that name, in any case and between blanks. -/
def parse? (raw : String) : Option FieldKind :=
  let wanted := Text.lower (Text.trim raw)
  all.find? fun kind => kind.name = wanted

end FieldKind

/-- The kind of a field, or the report that its type is not supported. -/
def FormField.kind (f : FormField) : Except FlowError FieldKind :=
  match FieldKind.parse? f.typeName with
  | some kind => .ok kind
  | none => .error (.configuration
      ("unsupported field type '" ++ f.typeName ++ "' for field '" ++ f.name ++ "'"))

/-- The boolean a checkbox value writes, in any case and between blanks. -/
def parseCheckbox (raw : String) : Option Bool :=
  let wanted := Text.lower (Text.trim raw)
  if wanted = "true" then some true
  else if wanted = "false" then some false
  else none

/-! ### Form documents -/

def knownProperties : List String :=
  ["formId", "formName", "fields", "fieldName", "selector", "dataValue", "fieldType"]

/-- The usual spelling of a property, if it is a known one. -/
def canonicalName (name : String) : String :=
  (knownProperties.find? fun known => Text.sameIgnoringCase known name).getD name

mutual

/-- The value with all known properties in their usual spelling, at every
level. Of two spellings of one property in an object the later one counts. -/
def canonical : Value → Value
  | .array items => .array (canonicalItems items)
  | .object members => .object (Dict.ofList (canonicalMembers members))
  | value => value

def canonicalItems : List Value → List Value
  | [] => []
  | item :: rest => canonical item :: canonicalItems rest

def canonicalMembers : List (String × Value) → List (String × Value)
  | [] => []
  | (name, value) :: rest => (canonicalName name, canonical value) :: canonicalMembers rest

end

/-- A property that is a string, empty when it is missing. -/
private def textProperty {σ : Type} (name : String) (get : σ → Option String)
    (put : σ → String → σ) : RecordField σ :=
  field name true get put readString

/-- The properties of a field read so far. -/
structure FormField.Draft where
  name : Option String := none
  selector : Option String := none
  value : Option String := none
  typeName : Option String := none

def FormField.read : Reader FormField :=
  Record.read
    { expected := "struct FieldConfig"
      fields :=
        [textProperty "fieldName" Draft.name fun d s => { d with name := some s },
         textProperty "selector" Draft.selector fun d s => { d with selector := some s },
         textProperty "dataValue" Draft.value fun d s => { d with value := some s },
         textProperty "fieldType" Draft.typeName fun d s => { d with typeName := some s }] }
    ({} : Draft)
    fun d => .ok ⟨d.name.getD "", d.selector.getD "", d.value.getD "", d.typeName.getD ""⟩

/-- The properties of a form read so far. -/
structure Form.Draft where
  id : Option String := none
  name : Option String := none
  fields : Option (List FormField) := none

def Form.read : Reader Form :=
  Record.read
    { expected := "struct FormConfiguration"
      fields :=
        [textProperty "formId" Draft.id fun d s => { d with id := some s },
         textProperty "formName" Draft.name fun d s => { d with name := some s },
         field "fields" true Draft.fields (fun d fs => { d with fields := some fs })
           (readList FormField.read)] }
    ({} : Draft)
    fun d => .ok ⟨d.id.getD "", d.name.getD "", d.fields.getD []⟩

/-- Why a form document is rejected. -/
inductive FormFault where
  | unreadable (cause : Json.Error)
  | notAnObject
  deriving DecidableEq, Repr

def FormFault.message : FormFault → String
  | .unreadable cause => "invalid form document: " ++ cause.message
  | .notAnObject => "form document must be a JSON object"

/-- The form that a JSON value describes. -/
def formOfValue (value : Value) : Except FormFault Form :=
  match value with
  | .object members =>
    match decodeAs Form.read (canonical (.object members)) with
    | .ok form => .ok form
    | .error cause => .error (.unreadable cause)
  | _ => .error .notAnObject

/-- The form that a document describes. -/
def parseForm (text : String) : Except FlowError Form :=
  let result : Except FormFault Form :=
    match Json.parse text with
    | .ok value => formOfValue value
    | .error cause => .error (.unreadable cause)
  match result with
  | .ok form => .ok form
  | .error fault => .error (.configuration fault.message)

def FormField.toValue (f : FormField) : Value :=
  .ofMembers [("fieldName", .string f.name), ("selector", .string f.selector),
    ("dataValue", .string f.value), ("fieldType", .string f.typeName)]

def Form.toValue (form : Form) : Value :=
  .ofMembers [("formId", .string form.id), ("formName", .string form.name),
    ("fields", .array (form.fields.map FormField.toValue))]

end Jobflow.Workflow
