import Jobflow.Json.Scan

/-!
Readers of JSON documents of a known shape. A reader reports the first thing
that is wrong in the order of the text. The same readers serve texts and values
already in memory; the two differ in a few reports and in that only a text can
be nested too deeply.
-/

namespace Jobflow.Json

/-- Where a document comes from. -/
inductive Origin where
  /-- a text -/
  | text
  /-- a value already in memory -/
  | value
  /-- the body of a tagged value, set aside until its tag was known -/
  | body
  deriving DecidableEq, Repr

/-- What a reader knows about its place: the origin of the document, and how
many more levels may be entered (counted for texts only). -/
structure Site where
  origin : Origin
  depth : Nat

/-- A reader of documents as values of `α`. -/
abbrev Reader (α : Type) := Site → Document → Except Error α

/-- A fault of the text as an error. -/
def malformed {α : Type} : Except SyntaxError α → Except Error α
  | .ok a => .ok a
  | .error cause => .error (.malformed cause)

namespace Site

/-- The place inside a list or object. -/
def enter (site : Site) : Except Error Site :=
  match site.origin with
  | .text => do
    let below ← malformed (Document.enter site.depth)
    return { site with depth := below }
  | .value | .body => .ok site

end Site

/-- What stands in a document, for a message; the value of a string or number
must have one. -/
def Document.found : Document → Except Error Found
  | .null => .ok .null
  | .bool b => .ok (.bool b)
  | .number (.ok (.whole n)) => .ok (.integer n)
  | .number (.ok (.real x)) => .ok (.real x)
  | .number (.error cause) => .error (.malformed cause)
  | .string (.ok s) => .ok (.string s)
  | .string (.error cause) => .error (.malformed cause)
  | .array _ _ => .ok .sequence
  | .object _ _ => .ok .map
  | .broken fault => .error (.malformed fault.reading)

/-- The report that a document is not of the expected type. -/
def wrongType {α : Type} (expected : String) (doc : Document) : Except Error α := do
  let found ← doc.found
  .error (.wrongType found expected)

/-! ### Scalars -/

/-- A string that stands for an `α`, described as `expected`. -/
def readText {α : Type} (expected : String) (parse : String → Except Error α) : Reader α :=
  fun _ doc =>
    match doc with
    | .string (.ok s) => parse s
    | doc => wrongType expected doc

def readString : Reader String := readText "a string" .ok

def readBool : Reader Bool := fun _ doc =>
  match doc with
  | .bool b => .ok b
  | doc => wrongType "a boolean" doc

/-- A natural number up to `max`. -/
def readNat (expected : String) (max : Nat) : Reader Nat := fun _ doc =>
  match doc with
  | .number (.ok (.whole n)) =>
    if 0 ≤ n ∧ n ≤ max then .ok n.toNat else .error (.wrongValue (.integer n) expected)
  | doc => wrongType expected doc

def readU64 : Reader Nat := readNat "u64" Text.maxU64

def readU32 : Reader Nat := readNat "u32" 4294967295

def readReal : Reader Decimal.Binary64 := fun _ doc =>
  match doc with
  | .number (.ok (.whole n)) => .ok (Decimal.Binary64.ofInt n)
  | .number (.ok (.real x)) => .ok x
  | doc => wrongType "f64" doc

/-- Nothing for null. -/
def readOption {α : Type} (reader : Reader α) : Reader (Option α) := fun site doc =>
  match doc with
  | .null => .ok none
  | doc => (reader site doc).map some

/-! ### Lists and maps -/

def readItems {α : Type} (reader : Reader α) (site : Site) :
    List Document → Except Error (List α)
  | [] => .ok []
  | item :: rest => do
    let a ← reader site item
    let as ← readItems reader site rest
    return a :: as

def readList {α : Type} (reader : Reader α) : Reader (List α) := fun site doc =>
  match doc with
  | .array items stop => do
    let site ← site.enter
    let as ← readItems reader site items
    malformed stop.readList
    return as
  | doc => wrongType "a sequence" doc

def readBindings {α : Type} (reader : Reader α) (site : Site) :
    List (Except SyntaxError String × Document) → Except Error (List (String × α))
  | [] => .ok []
  | (name, value) :: rest => do
    let name ← malformed name
    let a ← reader site value
    let bindings ← readBindings reader site rest
    return (name, a) :: bindings

/-- A map from names; of two members of one name the later one counts. -/
def readDict {α : Type} (reader : Reader α) : Reader (Dict α) := fun site doc =>
  match doc with
  | .object members stop => do
    let site ← site.enter
    let bindings ← readBindings reader site members
    malformed stop.readObject
    return Dict.ofList bindings
  | doc => wrongType "a map" doc

/-! ### Records -/

/-- A field of a record while it is being read into a draft `σ`. -/
structure RecordField (σ : Type) where
  name : String
  /-- whether the draft has a value for the field -/
  isSet : σ → Bool
  read : Site → Document → σ → Except Error σ
  /-- whether a list that is too short may leave the field out -/
  mayBeMissing : Bool

/-- A field read by `reader` into the place `put`. -/
def field {σ α : Type} (name : String) (mayBeMissing : Bool) (get : σ → Option α)
    (put : σ → α → σ) (reader : Reader α) : RecordField σ where
  name := name
  isSet draft := (get draft).isSome
  read site doc draft := do
    let a ← reader site doc
    return put draft a
  mayBeMissing := mayBeMissing

/-- How a record is described in messages and which fields it has, in order. -/
structure Record (σ : Type) where
  expected : String
  fields : List (RecordField σ)
  /-- whether messages about the length leave the number of fields out -/
  hidesLength : Bool := false
  /-- whether a name that is no field is an error -/
  isStrict : Bool := false

namespace Record

variable {σ : Type}

def find? (record : Record σ) (name : String) : Option (RecordField σ) :=
  record.fields.find? fun f => f.name = name

/-- Fills the draft from the members of an object, in their order. -/
def readMembers (record : Record σ) (site : Site) :
    List (Except SyntaxError String × Document) → σ → Except Error σ
  | [], draft => .ok draft
  | (name, value) :: rest, draft => do
    let name ← malformed name
    match record.find? name with
    | none =>
      if record.isStrict then
        .error (.unknownField name (record.fields.map (·.name)))
      else
        malformed value.skip
        readMembers record site rest draft
    | some f =>
      if f.isSet draft then .error (.duplicateField name)
      else
        let draft ← f.read site value draft
        readMembers record site rest draft

/-- A number of elements, for a message. -/
def elementCount (n : Nat) : String :=
  toString n ++ (if n = 1 then " element" else " elements")

/-- How many elements a list for the record should have, for a message. -/
def lengthText (record : Record σ) : String :=
  if record.hidesLength then record.expected
  else record.expected ++ " with " ++ elementCount record.fields.length

/-- Fills the draft from the first elements of a list, in the order of the
fields from number `index` on; the elements left over are returned. -/
def readElements (record : Record σ) (site : Site) :
    List (RecordField σ) → Nat → List Document → Stop → σ → Except Error (σ × List Document)
  | [], _, items, _, draft => .ok (draft, items)
  | f :: fields, index, item :: items, stop, draft => do
    let draft ← f.read site item draft
    readElements record site fields (index + 1) items stop draft
  | f :: fields, index, [], stop, draft => do
    malformed stop.readList
    if f.mayBeMissing then readElements record site fields (index + 1) [] stop draft
    else .error (.wrongLength index record.lengthText)

/-- The report on a list of `length` elements that goes on after the last field
of a record. -/
def leftover (record : Record σ) (site : Site) (length : Nat) (rest : List Document)
    (stop : Stop) : Except Error Unit :=
  match rest, site.origin with
  | [], _ =>
    match stop with
    | .closed => .ok ()
    | .ended => .error (.malformed .endInList)
    | .danglingComma => .error (.malformed .trailingComma)
    | _ => .error (.malformed .trailingCharacters)
  | _, .text => .error (.malformed .trailingCharacters)
  | _, .value => .error (.wrongLength length "fewer elements in array")
  | _, .body =>
    .error (.wrongLength length (elementCount record.fields.length ++ " in sequence"))

/-- Reads a record given as an object or as the list of its fields. -/
def read {α : Type} (record : Record σ) (empty : σ) (finish : σ → Except Error α) : Reader α :=
  fun site doc =>
    match doc with
    | .object members stop => do
      let inside ← site.enter
      let draft ← record.readMembers inside members empty
      malformed stop.readObject
      finish draft
    | .array items stop => do
      let inside ← site.enter
      let (draft, rest) ← record.readElements inside record.fields 0 items stop empty
      let a ← finish draft
      record.leftover site items.length rest stop
      return a
    | doc => wrongType record.expected doc

end Record

/-- The value of a field that must be there. -/
def required {α : Type} (name : String) : Option α → Except Error α
  | some a => .ok a
  | none => .error (.missingField name)

/-! ### Alternatives -/

/-- The body of a tagged value and the tag it was found with. A tagged object
has its tag under the name `tag`, a tagged list as its first element; everything
else is the body. -/
def readTag (tag expected : String) (known : List String) (doc : Document) :
    Except Error (String × Document) :=
  let variant (doc : Document) : Except Error String :=
    match doc with
    | .string (.ok name) =>
      if name ∈ known then .ok name else .error (.unknownVariant name known)
    | doc => wrongType "variant identifier" doc
  match doc with
  | .object members stop =>
    match members.find? fun member => member.1.toOption = some tag with
    | none => .error (.missingField tag)
    | some (_, value) => do
      let name ← variant value
      return (name, .object (members.filter fun member => member.1.toOption ≠ some tag) stop)
  | .array [] _ => .error (.missingField tag)
  | .array (first :: rest) stop => do
    let name ← variant first
    return (name, .array rest stop)
  | doc => wrongType expected doc

/-- One of several names, given as a string or as an object with null under
the name. -/
def readName (known : List String) : Reader String := fun site doc =>
  let variant (name : String) : Except Error String :=
    if name ∈ known then .ok name else .error (.unknownVariant name known)
  let unit (doc : Document) : Except Error Unit :=
    match doc with
    | .null => .ok ()
    | doc => wrongType "unit" doc
  match site.origin with
  | .text =>
    match doc with
    | .string (.ok name) => variant name
    | .string (.error cause) => .error (.malformed cause)
    | .object members stop => do
      let _ ← site.enter
      match members with
      | [] =>
        match stop with
        | .closed => .error (.malformed .expectedValue)
        | stop => do
          malformed stop.readObject
          .error (.malformed .expectedValue)
      | (name, value) :: rest => do
        let name ← malformed name
        let name ← variant name
        unit value
        match rest, stop with
        | [], .closed => return name
        | [], .ended => .error (.malformed .endInObject)
        | _, _ => .error (.malformed .expectedValue)
    | .broken fault => .error (.malformed fault.reading)
    | _ => .error (.malformed .expectedValue)
  | _ =>
    match doc with
    | .string (.ok name) => variant name
    | .object [(name, value)] _ => do
      let name ← malformed name
      let name ← variant name
      unit value
      return name
    | .object _ _ => .error (.wrongValue .map "map with a single key")
    | doc => wrongType "string or map" doc

/-! ### Whole documents -/

/-- How many levels of lists and objects a text may open, plus one. -/
def depthLimit : Nat := 128

/-- Reads a text, all of it. -/
def parseAs {α : Type} (reader : Reader α) (text : String) : Except Error α := do
  let source := scan text
  let a ← reader ⟨.text, depthLimit⟩ source.document
  if source.hasTrailer then .error (.malformed .trailingCharacters)
  else return a

def parse (text : String) : Except Error Value :=
  parseAs (fun site doc => malformed (doc.toValue site.depth)) text

def decodeAs {α : Type} (reader : Reader α) (value : Value) : Except Error α :=
  reader ⟨.value, depthLimit⟩ (Document.ofValue value)

end Jobflow.Json
