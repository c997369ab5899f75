import Jobflow.Dict
import Jobflow.Yaml.Node

/-!
Values of certain shapes out of YAML documents. What a scalar means depends on
who asks: as a text every scalar is taken as it is written, and only plain ones
are flags, numbers or nothing.
-/

namespace Jobflow.Yaml

/-- Reads a node as an `α`. -/
abbrev Reader (α : Type) := Node → Except Fault α

def coreTag (name : String) : String := "tag:yaml.org,2002:" ++ name

/-- The text of a scalar that may be more than a text: a plain one, or a block
with the tag of the type. -/
def untyped? (tagName : String) : Node → Option String
  | .scalar .plain _ text => some text
  | .scalar .literal (some tag) text => if tag = coreTag tagName then some text else none
  | _ => none

/-- A node that means nothing where a collection is asked for. -/
def Node.isBlank : Node → Bool
  | .scalar .plain _ "" => true
  | _ => false

def readText : Reader String
  | .scalar _ _ text => .ok text
  | _ => .error (.wrongShape "a text")

def flag? (text : String) : Option Bool :=
  if text ∈ ["true", "True", "TRUE"] then some true
  else if text ∈ ["false", "False", "FALSE"] then some false
  else none

def readBool : Reader Bool := fun node =>
  match (untyped? "bool" node).bind flag? with
  | some b => .ok b
  | none => .error (.wrongShape "a flag")

/-- The number of digits of a base; a sign before them may have been allowed. -/
def digitsValue? (base : Nat) (cs : List Char) : Option Nat :=
  if cs.isEmpty then none
  else cs.foldl (fun n c => do
    let digit ← Text.hexValue? c
    if digit < base then return base * (← n) + digit else none) (some 0)

/-- A number of at most 64 bits: hexadecimal, octal or binary behind its mark, or
decimal without needless zeros. -/
def nat? (text : String) : Option Nat :=
  let unsigned := match text.toList with
    | '+' :: rest => rest
    | cs => cs
  let value := match unsigned with
    | '0' :: 'x' :: rest => digitsValue? 16 rest
    | '0' :: 'o' :: rest => digitsValue? 8 rest
    | '0' :: 'b' :: rest => digitsValue? 2 rest
    | '0' :: _ :: _ => none
    | cs => digitsValue? 10 cs
  value.filter fun n => n ≤ Text.maxU64

def readNat : Reader Nat := fun node =>
  match (untyped? "int" node).bind nat? with
  | some n => .ok n
  | none => .error (.wrongShape "a number")

/-- The words for nothing. -/
def isNull (text : String) : Bool := text ∈ ["null", "Null", "NULL", "~"]

/-- Nothing for a plain word that means nothing, and for no word at all. -/
def readOption {α : Type} (reader : Reader α) : Reader (Option α) := fun node =>
  match node with
  | .scalar .plain (some tag) text =>
    if tag = coreTag "null" then
      if isNull text then .ok none else .error (.wrongShape "null")
    else (reader node).map some
  | .scalar .plain none text =>
    if text = "" || isNull text then .ok none else (reader node).map some
  | _ => (reader node).map some

/-- The entries of a mapping; where nothing is written there are none. -/
def entriesOf (node : Node) : Except Fault (List (Node × Node)) :=
  match node with
  | .mapping entries => .ok entries
  | node => if node.isBlank then .ok [] else .error (.wrongShape "a mapping")

/-- Texts by name; of two entries of one name the later one counts. -/
def readDict {α : Type} (reader : Reader α) : Reader (Dict α) := fun node => do
  let entries ← entriesOf node
  let bindings ← entries.mapM fun (key, value) => do
    let name ← readText key
    let a ← reader value
    return (name, a)
  return Dict.ofList bindings

/-! ### Records -/

/-- A field of a record: how its value changes the record. -/
structure RecordField (σ : Type) where
  name : String
  read : Node → σ → Except Fault σ

/-- A field read by `reader` into the place `put`. -/
def field {σ α : Type} (name : String) (put : σ → α → σ) (reader : Reader α) : RecordField σ where
  name := name
  read node record := do
    let a ← reader node
    return put record a

/-- Changes a record by the entries of a mapping; `seen` are the fields that
were there before. An entry that is no field does not count. -/
def readFields {σ : Type} (fields : List (RecordField σ)) (seen : List String) :
    List (Node × Node) → σ → Except Fault σ
  | [], record => .ok record
  | (key, value) :: rest, record => do
    let name ← readText key
    match fields.find? fun f => f.name = name with
    | none => readFields fields seen rest record
    | some f =>
      if name ∈ seen then .error (.duplicateField name)
      else readFields fields (name :: seen) rest (← f.read value record)

/-- A record: its usual value, with the fields that are given. -/
def readRecord {σ : Type} (usual : σ) (fields : List (RecordField σ)) : Reader σ := fun node => do
  readFields fields [] (← entriesOf node) usual

end Jobflow.Yaml
