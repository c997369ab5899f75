import Jobflow.Json.Value
import Jobflow.Text.Basic

/-!
JSON values as text, on one line or with one item a line and two spaces of
indentation for each level. Members of an object stand in the order of the
list they are given in.
-/

namespace Jobflow.Json

/-- A character inside a string literal. Only what JSON forbids is escaped. -/
def escapedChar (c : Char) : List Char :=
  if c == '"' then ['\\', '"']
  else if c == '\\' then ['\\', '\\']
  else if c == '\x08' then ['\\', 'b']
  else if c == '\x0c' then ['\\', 'f']
  else if c == '\n' then ['\\', 'n']
  else if c == '\r' then ['\\', 'r']
  else if c == '\t' then ['\\', 't']
  else if c.toNat < 0x20 then ['\\', 'u'] ++ Text.hexDigits 4 c.toNat
  else [c]

/-- The characters of a string literal, quotation marks included. -/
def literalChars (s : String) : List Char :=
  '"' :: s.toList.flatMap escapedChar ++ ['"']

def literal (s : String) : String :=
  String.ofList (literalChars s)

def Number.chars : Number → List Char
  | .whole n => (toString n).toList
  | .real x => x.text.toList

namespace Value

/-- A value that holds no other. -/
def scalarChars : Value → List Char
  | .null => ['n', 'u', 'l', 'l']
  | .bool true => ['t', 'r', 'u', 'e']
  | .bool false => ['f', 'a', 'l', 's', 'e']
  | .number n => n.chars
  | .string s => literalChars s
  | .array _ | .object _ => []

mutual

/-- The value on one line without blanks. -/
def compactChars : Value → List Char
  | .array items => '[' :: compactItems items ++ [']']
  | .object members => '\x7b' :: compactMembers members ++ ['\x7d']
  | value => scalarChars value

def compactItems : List Value → List Char
  | [] => []
  | [item] => compactChars item
  | item :: rest => compactChars item ++ ',' :: compactItems rest

def compactMembers : List (String × Value) → List Char
  | [] => []
  | [(name, value)] => literalChars name ++ ':' :: compactChars value
  | (name, value) :: rest =>
    literalChars name ++ ':' :: compactChars value ++ ',' :: compactMembers rest

end

/-- A new line at a level of indentation. -/
def newLine (level : Nat) : List Char :=
  '\n' :: List.replicate (2 * level) ' '

mutual

/-- The value over several lines, its inner lines indented below `level`. -/
def prettyChars (level : Nat) : Value → List Char
  | .array [] => ['[', ']']
  | .array items => '[' :: prettyItems (level + 1) items ++ newLine level ++ [']']
  | .object [] => ['\x7b', '\x7d']
  | .object members =>
    '\x7b' :: prettyMembers (level + 1) members ++ newLine level ++ ['\x7d']
  | value => scalarChars value

def prettyItems (level : Nat) : List Value → List Char
  | [] => []
  | [item] => newLine level ++ prettyChars level item
  | item :: rest => newLine level ++ prettyChars level item ++ ',' :: prettyItems level rest

def prettyMembers (level : Nat) : List (String × Value) → List Char
  | [] => []
  | [(name, value)] =>
    newLine level ++ literalChars name ++ ':' :: ' ' :: prettyChars level value
  | (name, value) :: rest =>
    newLine level ++ literalChars name ++ ':' :: ' ' :: prettyChars level value ++
      ',' :: prettyMembers level rest

end

def compact (value : Value) : String := String.ofList value.compactChars

def pretty (value : Value) : String := String.ofList (prettyChars 0 value)

end Value

end Jobflow.Json
