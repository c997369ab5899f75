import Jobflow.Json.Value

/-!
Members of JSON objects, read leniently: a member that is missing or of another
kind reads as the empty value of the kind that is asked for. Descriptions of
rehearsals are read so, never the documents of the program.
-/

namespace Jobflow.Json.Value

/-- The member, unless it is missing or null. -/
def given? (v : Value) (name : String) : Option Value :=
  match v.get? name with
  | some .null | none => none
  | found => found

/-- The member, or null. -/
def member (v : Value) (name : String) : Value := (v.get? name).getD .null

def asText? : Value → Option String
  | .string s => some s
  | _ => none

def asText (v : Value) : String := v.asText?.getD ""

def asNat? : Value → Option Nat
  | .number (.whole n) => some n.toNat
  | _ => none

def asReal : Value → Decimal.Binary64
  | .number (.whole n) => .ofInt n
  | .number (.real x) => x
  | _ => .zero

def items : Value → List Value
  | .array items => items
  | _ => []

def members : Value → List (String × Value)
  | .object members => members
  | _ => []

def textAt? (v : Value) (name : String) : Option String := (v.member name).asText?

def textAt (v : Value) (name : String) : String := (v.member name).asText

def natAt? (v : Value) (name : String) : Option Nat := (v.member name).asNat?

def flagAt (v : Value) (name : String) : Bool :=
  match v.member name with
  | .bool b => b
  | _ => false

def itemsAt (v : Value) (name : String) : List Value := (v.member name).items

def textsAt (v : Value) (name : String) : List String := (v.itemsAt name).map asText

def membersAt (v : Value) (name : String) : List (String × Value) := (v.member name).members

end Jobflow.Json.Value
