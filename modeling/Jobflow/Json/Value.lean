import Jobflow.Dict
import Jobflow.Decimal.Shortest

/-!
JSON values. Numbers are whole when they are written as integers that fit 64
bits, and doubles otherwise; an object is a finite map from names to values.
-/

namespace Jobflow.Json

open Jobflow.Decimal (Binary64)

/-- A number: an integer of 64 bits, signed or unsigned, or a double. -/
inductive Number where
  | whole (n : Int)
  | real (x : Binary64)
  deriving DecidableEq, Repr

/-- A JSON value. The members of an object have different names; in an object that
was read they are in increasing order of their names, and one that is written
keeps the order it was made with. -/
inductive Value where
  | null
  | bool (b : Bool)
  | number (n : Number)
  | string (s : String)
  | array (items : List Value)
  | object (members : List (String × Value))
  deriving Repr, Inhabited, BEq

namespace Value

def ofNat (n : Nat) : Value := .number (.whole n)

/-- The value bound to `name`, if this is an object that has one. -/
def get? (name : String) : Value → Option Value
  | .object members => Dict.find? name members
  | _ => none

def ofMembers (members : List (String × Value)) : Value :=
  .object (Dict.ofList members)

/-- The text or null. -/
def ofText? : Option String → Value
  | some s => .string s
  | none => .null

end Value

end Jobflow.Json
