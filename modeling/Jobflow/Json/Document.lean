import Jobflow.Json.Error

/-!
A JSON document as it is written, up to its first fault. Readers of a certain
shape walk the document from left to right and report the first thing that is
wrong for them, be it a fault of the text or a value of another shape; a value
nobody asks for is skipped, which forgives some faults that reading does not.
-/

namespace Jobflow.Json

/-- A fault of the text: what is reported when the value is read, and what is
reported when it is skipped. -/
structure Fault where
  reading : SyntaxError
  skipping : SyntaxError
  deriving DecidableEq, Repr

def Fault.plain (cause : SyntaxError) : Fault := ⟨cause, cause⟩

/-- How a list or an object ends. -/
inductive Stop where
  /-- with its bracket or brace -/
  | closed
  /-- the text ends after an element, or before the first -/
  | ended
  /-- something other than a comma follows an element -/
  | unseparated
  /-- the bracket or brace follows a comma -/
  | danglingComma
  /-- the text ends after a comma -/
  | endedAfterComma
  /-- a member of an object does not start with a quotation mark -/
  | keyMissing
  /-- the name of a member is not a string -/
  | keyBroken (fault : Fault)
  deriving DecidableEq, Repr

/-- A document up to its first fault. A number or a string may be well formed
and still have no value; then the error is reported by readers only. -/
inductive Document where
  | null
  | bool (b : Bool)
  | number (n : Except SyntaxError Number)
  | string (s : Except SyntaxError String)
  | array (items : List Document) (stop : Stop)
  | object (members : List (Except SyntaxError String × Document)) (stop : Stop)
  | broken (fault : Fault)

def Stop.readList : Stop → Except SyntaxError Unit
  | .closed => .ok ()
  | .ended => .error .endInList
  | .danglingComma => .error .trailingComma
  | .endedAfterComma => .error .endInValue
  | .unseparated | .keyMissing | .keyBroken _ => .error .expectedCommaOrBracket

def Stop.skipList : Stop → Except SyntaxError Unit
  | .danglingComma => .error .expectedValue
  | stop => stop.readList

def Stop.readObject : Stop → Except SyntaxError Unit
  | .closed => .ok ()
  | .ended => .error .endInObject
  | .unseparated => .error .expectedCommaOrBrace
  | .danglingComma => .error .trailingComma
  | .endedAfterComma => .error .endInValue
  | .keyMissing => .error .keyMustBeString
  | .keyBroken fault => .error fault.reading

def Stop.skipObject : Stop → Except SyntaxError Unit
  | .danglingComma => .error .keyMustBeString
  | .endedAfterComma => .error .endInObject
  | .keyBroken fault => .error fault.skipping
  | stop => stop.readObject

namespace Document

mutual

/-- Passes over a value of any shape, to any depth. -/
def skip : Document → Except SyntaxError Unit
  | .broken fault => .error fault.skipping
  | .array items stop => do skipItems items; stop.skipList
  | .object members stop => do skipMembers members; stop.skipObject
  | _ => .ok ()

def skipItems : List Document → Except SyntaxError Unit
  | [] => .ok ()
  | item :: rest => do skip item; skipItems rest

def skipMembers : List (Except SyntaxError String × Document) → Except SyntaxError Unit
  | [] => .ok ()
  | (_, value) :: rest => do skip value; skipMembers rest

end

mutual

/-- The document that writes a value. -/
def ofValue : Value → Document
  | .null => .null
  | .bool b => .bool b
  | .number n => .number (.ok n)
  | .string s => .string (.ok s)
  | .array items => .array (ofItems items) .closed
  | .object members => .object (ofMembers members) .closed

def ofItems : List Value → List Document
  | [] => []
  | item :: rest => ofValue item :: ofItems rest

def ofMembers : List (String × Value) → List (Except SyntaxError String × Document)
  | [] => []
  | (name, value) :: rest => (.ok name, ofValue value) :: ofMembers rest

end

/-- Enters a list or an object when `depth` more levels may be entered. -/
def enter (depth : Nat) : Except SyntaxError Nat :=
  match depth with
  | 0 | 1 => .error .tooDeep
  | below + 1 => .ok below

mutual

/-- The value a document writes, or the first fault met while reading it. At
most `depth - 1` lists and objects may be open at a time. Of two members of one
name the later one counts. -/
def toValue (depth : Nat) : Document → Except SyntaxError Value
  | .null => .ok .null
  | .bool b => .ok (.bool b)
  | .number n => n.map .number
  | .string s => s.map .string
  | .broken fault => .error fault.reading
  | .array items stop => do
    let below ← enter depth
    let values ← toItems below items
    stop.readList
    return .array values
  | .object members stop => do
    let below ← enter depth
    let bindings ← toMembers below members
    stop.readObject
    return .object (Dict.ofList bindings)

def toItems (depth : Nat) : List Document → Except SyntaxError (List Value)
  | [] => .ok []
  | item :: rest => do
    let value ← toValue depth item
    let values ← toItems depth rest
    return value :: values

def toMembers (depth : Nat) :
    List (Except SyntaxError String × Document) → Except SyntaxError (List (String × Value))
  | [] => .ok []
  | (name, value) :: rest => do
    let name ← name
    let value ← toValue depth value
    let bindings ← toMembers depth rest
    return (name, value) :: bindings

end

end Document

/-- A whole text: its document, and whether anything but blanks follows it. -/
structure Source where
  document : Document
  hasTrailer : Bool

end Jobflow.Json
