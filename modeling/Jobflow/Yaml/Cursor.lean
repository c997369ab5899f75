import Jobflow.Text.Basic

/-!
YAML texts and places in them. Line ends are brought to one spelling before
anything else is looked at, so that a place moves in one of two ways: along its
line, or to the start of the next one.
-/

namespace Jobflow.Yaml

/-- Why a text or a value in it is not what was asked for. -/
inductive Fault where
  /-- a character that no text may hold -/
  | forbiddenCharacter
  /-- a tab or a column that breaks the indentation -/
  | badIndentation
  /-- a quoted text or a key without its end -/
  | unfinished
  /-- an escape that means no character -/
  | badEscape
  /-- something that may not stand where it stands -/
  | misplaced
  /-- an alias or a tag handle that was never defined -/
  | undefined (name : String)
  | severalDocuments
  /-- a value of another shape -/
  | wrongShape (expected : String)
  | duplicateField (name : String)
  deriving DecidableEq, Repr

/-- A character that a text may hold. -/
def isAllowed (c : Char) : Bool :=
  let n := c.toNat
  n == 0x09 || n == 0x0A || n == 0x0D || (0x20 ≤ n && n ≤ 0x7E) || n == 0x85 ||
    (0xA0 ≤ n && n ≤ 0xFFFD) || 0x10000 ≤ n

/-- A space or a tab. -/
def isBlank (c : Char) : Bool := c == ' ' || c == '\t'

/-- The end of a line, in the one spelling; the separators of lines and
paragraphs are kept apart. -/
def isBreak (c : Char) : Bool :=
  c == '\n' || c.toNat == 0x2028 || c.toNat == 0x2029

/-- Whether a text is at its end, at a blank or at the end of a line. -/
def atGap : List Char → Bool
  | [] => true
  | c :: _ => isBlank c || isBreak c

/-- The text with all line ends written as line feeds. -/
def unifyLines : List Char → List Char
  | [] => []
  | '\r' :: '\n' :: rest => '\n' :: unifyLines rest
  | c :: rest => (if c == '\r' || c.toNat == 0x85 then '\n' else c) :: unifyLines rest

/-- The characters of a text, without a mark of its encoding. -/
def sourceChars (text : String) : Except Fault (List Char) :=
  let cs := match text.toList with
    | c :: rest => if c.toNat = 0xFEFF then rest else c :: rest
    | [] => []
  if cs.all isAllowed then .ok (unifyLines cs) else .error .forbiddenCharacter

/-- Whether the text starts with three such characters that stand alone. -/
def startsWithMark (c : Char) : List Char → Bool
  | x :: y :: z :: rest => x == c && y == c && z == c && atGap rest
  | _ => false

/-- Whether the text, at the start of a line, separates documents. -/
def isDocumentMark (cs : List Char) : Bool :=
  startsWithMark '-' cs || startsWithMark '.' cs

/-- A place in a text, and the text from there on. -/
structure Cursor where
  rest : List Char
  index : Nat
  line : Nat
  column : Nat

namespace Cursor

def start (cs : List Char) : Cursor := ⟨cs, 0, 0, 0⟩

/-- The place after the next character. -/
def next (cursor : Cursor) : Cursor :=
  match cursor.rest with
  | [] => cursor
  | c :: rest =>
    if isBreak c then ⟨rest, cursor.index + 1, cursor.line + 1, 0⟩
    else ⟨rest, cursor.index + 1, cursor.line, cursor.column + 1⟩

/-- The place after so many characters. -/
def skip : Nat → Cursor → Cursor
  | 0, cursor => cursor
  | n + 1, cursor => skip n cursor.next

/-- The place from which on the text is `rest`. -/
def skipTo (cursor : Cursor) (rest : List Char) : Cursor :=
  cursor.skip (cursor.rest.length - rest.length)

end Cursor

end Jobflow.Yaml
