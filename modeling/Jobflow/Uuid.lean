import Jobflow.Json.Read

/-!
Universally unique identifiers: numbers of 128 bits, written as 32 hexadecimal
digits in five groups, and the other spellings that are accepted.
-/

namespace Jobflow

/-- An identifier, as the number its digits write. -/
structure Uuid where
  number : Nat
  deriving DecidableEq, Repr

/-- Why a text is no identifier. -/
inductive UuidError where
  | invalidCharacter (c : Char) (index : Nat)
  | invalidLength (length : Nat)
  | invalidGroupCount (count : Nat)
  | invalidGroupLength (group expected length : Nat)
  deriving DecidableEq, Repr

def UuidError.message : UuidError → String
  | .invalidCharacter c index =>
    "invalid character: found `" ++ String.singleton c ++ "` at " ++ toString index
  | .invalidLength length => "invalid length: found " ++ toString length
  | .invalidGroupCount count => "invalid group count: expected 5, found " ++ toString count
  | .invalidGroupLength group expected length =>
    "invalid group length in group " ++ toString group ++ ": expected " ++ toString expected ++
      ", found " ++ toString length

namespace Uuid

/-- The lengths of the groups. -/
def groupLengths : List Nat := [8, 4, 4, 4, 12]

def hexNumber (cs : List Char) : Option Nat :=
  cs.foldl (fun n c => do return 16 * (← n) + (← Text.hexValue? c)) (some 0)

def parseGroups (cs : List Char) : Option Uuid :=
  let groups := Text.splitBy (· == '-') cs
  if groups.map List.length = groupLengths then (hexNumber groups.flatten).map Uuid.mk else none

/-- The marker of an identifier in a resource name. -/
def urnMark : List Char := "urn:uuid:".toList

/-- The text inside braces or after the marker, with the number of bytes before
it; nothing for a plain text. -/
def unwrap (cs : List Char) : Option (List Char × Nat) :=
  match cs with
  | '\x7b' :: rest => if rest.getLast? = some '\x7d' then some (rest.dropLast, 1) else none
  | cs =>
    if urnMark.isPrefixOf cs then some (cs.drop urnMark.length, urnMark.length) else none

/-- The first character that is neither a hexadecimal digit nor a hyphen, with
its place in bytes. -/
def badCharacter (index : Nat) : List Char → Option (Char × Nat)
  | [] => none
  | c :: rest =>
    if c = '-' ∨ (Text.hexValue? c).isSome then badCharacter (index + c.utf8Size) rest
    else some (c, index)

/-- The first group, from number `group` on, that is not as long as it should
be; the last group is measured from its start to the end of the text. -/
def badGroup (group : Nat) : List Nat → List (List Char) → UuidError
  | expected :: lengths, g :: groups =>
    if lengths = [] ∨ g.length ≠ expected then .invalidGroupLength group expected g.length
    else badGroup (group + 1) lengths groups
  | _, _ => .invalidGroupCount 0

/-- The report on a text that is no identifier. -/
def diagnose (cs : List Char) : UuidError :=
  let (inner, start) := (unwrap cs).getD (cs, 0)
  match badCharacter start inner with
  | some (c, index) => .invalidCharacter c index
  | none =>
    let groups := Text.splitBy (· == '-') inner
    if groups.length = 1 ∧ (unwrap cs).isNone then .invalidLength cs.length
    else if groups.length ≠ 5 then .invalidGroupCount groups.length
    else
      match badGroup 0 groupLengths groups with
      | .invalidGroupLength 4 expected _ => .invalidGroupLength 4 expected (cs.length - 24)
      | report => report

/-- The identifier a text writes: 32 digits, or five groups of them, the groups
possibly in braces or after the marker of a resource name. -/
def parse (text : String) : Except UuidError Uuid :=
  let cs := text.toList
  let found :=
    if cs.length = 32 then (hexNumber cs).map Uuid.mk
    else parseGroups ((unwrap cs).getD (cs, 0)).1
  match found with
  | some id => .ok id
  | none => .error (diagnose cs)

def text (id : Uuid) : String :=
  let digits := Text.hexDigits 32 id.number
  String.ofList (digits.take 8 ++ '-' :: (digits.drop 8).take 4 ++ '-' :: (digits.drop 12).take 4 ++
    '-' :: (digits.drop 16).take 4 ++ '-' :: digits.drop 20)

def read : Json.Reader Uuid :=
  Json.readText "a formatted UUID string" fun s =>
    match parse s with
    | .ok id => .ok id
    | .error e => .error (.rejected ("UUID parsing failed: " ++ e.message))

end Uuid

end Jobflow
