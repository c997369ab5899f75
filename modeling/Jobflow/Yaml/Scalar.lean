import Jobflow.Yaml.Cursor

/-!
The texts of YAML scalars: plain, quoted, and in blocks. A line end inside a
plain or quoted text stands for a space, several stand for one less, and the
blanks around them do not count.
-/

namespace Jobflow.Yaml

/-! ### Folding -/

/-- The blanks and line ends between two words. -/
inductive Gap where
  | blanks (cs : List Char)
  /-- a line end, unless it was escaped, and the line ends after it -/
  | lines (first : Option Char) (more : List Char)

namespace Gap

def none : Gap := .blanks []

/-- The gap with one more blank or line end. -/
def add (c : Char) : Gap → Gap
  | .blanks cs => if isBreak c then .lines c [] else .blanks (cs ++ [c])
  | .lines first more => if isBreak c then .lines first (more ++ [c]) else .lines first more

def isNone : Gap → Bool
  | .blanks [] => true
  | _ => false

def hasLines : Gap → Bool
  | .blanks _ => false
  | .lines .. => true

/-- What stands for the gap in the folded text. -/
def folded : Gap → List Char
  | .blanks cs => cs
  | .lines .none more => more
  | .lines (some '\n') [] => [' ']
  | .lines (some '\n') more => more
  | .lines (some c) more => c :: more

end Gap

/-- A text, what follows it, and whether a line ended behind its last word. -/
structure Scanned where
  text : List Char
  rest : List Char
  endedLine : Bool

/-- The result with further characters before it. -/
def Scanned.after (chars : List Char) (s : Scanned) : Scanned :=
  { s with text := chars ++ s.text }

/-! ### Plain texts -/

/-- A character that structures a collection in brackets or braces. -/
def isFlowMark (c : Char) : Bool :=
  c == ',' || c == '[' || c == ']' || c == '\x7b' || c == '\x7d'

/-- Whether a plain text inside brackets may not go on with a colon before this. -/
def refusesColon (rest : List Char) : Bool :=
  match rest with
  | c :: _ => isFlowMark c || c == '?'
  | [] => false

/-- The rest of a plain text. Lines that belong to it are indented by `indent`,
unless the text is inside brackets. -/
def plainText (inFlow : Bool) (indent : Nat) (gap : Gap) (column : Nat) :
    List Char → Except Fault Scanned
  | [] => .ok ⟨[], [], gap.hasLines⟩
  | c :: rest =>
    if isBlank c || isBreak c then
      if c == '\t' && gap.hasLines && column < indent then .error .badIndentation
      else plainText inFlow indent (gap.add c) (if isBreak c then 0 else column + 1) rest
    else if !gap.isNone && ((!inFlow && column < indent) ||
        (column == 0 && isDocumentMark (c :: rest)) || c == '#') then
      .ok ⟨[], c :: rest, gap.hasLines⟩
    else if inFlow && c == ':' && refusesColon rest then .error .misplaced
    else if (c == ':' && atGap rest) || (inFlow && isFlowMark c) then
      .ok ⟨[], c :: rest, gap.hasLines⟩
    else do
      let s ← plainText inFlow indent .none (column + 1) rest
      return s.after (gap.folded ++ [c])

/-! ### Quoted texts -/

/-- The rest of a text in single quotes, in which a doubled quote stands for one. -/
def singleQuoted (gap : Gap) (column : Nat) : List Char → Except Fault Scanned
  | [] => .error .unfinished
  | c :: rest =>
    if isBlank c || isBreak c then
      singleQuoted (gap.add c) (if isBreak c then 0 else column + 1) rest
    else if column == 0 && isDocumentMark (c :: rest) then .error .misplaced
    else if c == '\'' then
      match rest with
      | '\'' :: rest => do
        let s ← singleQuoted .none (column + 2) rest
        return s.after (gap.folded ++ ['\''])
      | rest => .ok ⟨gap.folded, rest, false⟩
    else do
      let s ← singleQuoted .none (column + 1) rest
      return s.after (gap.folded ++ [c])

/-- The character that an escape of one letter means. -/
def simpleEscape (c : Char) : Option Char :=
  match c with
  | '0' => some '\x00'
  | 'a' => some '\x07'
  | 'b' => some '\x08'
  | 't' | '\t' => some '\t'
  | 'n' => some '\n'
  | 'v' => some '\x0b'
  | 'f' => some '\x0c'
  | 'r' => some '\r'
  | 'e' => some '\x1b'
  | ' ' => some ' '
  | '"' => some '"'
  | '/' => some '/'
  | '\\' => some '\\'
  | 'N' => some (Char.ofNat 0x85)
  | '_' => some (Char.ofNat 0xA0)
  | 'L' => some (Char.ofNat 0x2028)
  | 'P' => some (Char.ofNat 0x2029)
  | _ => none

/-- How many hexadecimal digits follow the letter of an escape. -/
def escapeWidth (c : Char) : Nat :=
  match c with
  | 'x' => 2
  | 'u' => 4
  | 'U' => 8
  | _ => 0

/-- The character of a code point. -/
def codePoint? (n : Nat) : Option Char :=
  if h : n.isValidChar then some (Char.ofNatAux n h) else none

/-- What a text in double quotes is in the middle of. -/
inductive QuoteState where
  | text (gap : Gap)
  | escape
  /-- an escape with so many digits to come -/
  | digits (count value : Nat)

def doubleQuoted : QuoteState → (column : Nat) → List Char → Except Fault Scanned
  | _, _, [] => .error .unfinished
  | .text gap, column, c :: rest =>
    if isBlank c || isBreak c then
      doubleQuoted (.text (gap.add c)) (if isBreak c then 0 else column + 1) rest
    else if column == 0 && isDocumentMark (c :: rest) then .error .misplaced
    else if c == '"' then .ok ⟨gap.folded, rest, false⟩
    else if c == '\\' then do
      return (← doubleQuoted .escape (column + 1) rest).after gap.folded
    else do
      return (← doubleQuoted (.text .none) (column + 1) rest).after (gap.folded ++ [c])
  | .escape, column, c :: rest =>
    if isBreak c then doubleQuoted (.text (.lines .none [])) 0 rest
    else if 0 < escapeWidth c then doubleQuoted (.digits (escapeWidth c) 0) (column + 1) rest
    else match simpleEscape c with
      | none => .error .badEscape
      | some meant => do
        return (← doubleQuoted (.text .none) (column + 1) rest).after [meant]
  | .digits count value, column, c :: rest =>
    match Text.hexValue? c with
    | none => .error .badEscape
    | some digit =>
      let value := 16 * value + digit
      if 1 < count then doubleQuoted (.digits (count - 1) value) (column + 1) rest
      else match codePoint? value with
        | none => .error .badEscape
        | some meant => do
          return (← doubleQuoted (.text .none) (column + 1) rest).after [meant]

/-! ### Blocks -/

/-- What becomes of the line ends behind a block. -/
inductive Chomping where
  | strip
  | clip
  | keep
  deriving DecidableEq

/-- How a block is announced: its line ends, and its indentation if it is given. -/
structure BlockHeader where
  chomping : Chomping
  indent : Option Nat

/-- The chomping that a sign asks for. -/
def chompingOf (c : Char) : Option Chomping :=
  if c == '+' then some .keep else if c == '-' then some .strip else none

/-- A given indentation: a digit other than zero. -/
def blockIndent (cs : List Char) : Except Fault (Option Nat × List Char) :=
  match cs with
  | c :: rest =>
    if c == '0' then .error .badIndentation
    else if Text.isDigit c then .ok (some (Text.digitValue c), rest)
    else .ok (none, c :: rest)
  | [] => .ok (none, [])

/-- The signs behind the mark of a block, in either order. -/
def blockSigns (cs : List Char) : Except Fault (BlockHeader × List Char) :=
  match cs.head?.bind chompingOf with
  | some chomping => do
    let (indent, rest) ← blockIndent cs.tail
    return (⟨chomping, indent⟩, rest)
  | none => do
    let (indent, rest) ← blockIndent cs
    match indent, rest.head?.bind chompingOf with
    | some _, some chomping => return (⟨chomping, indent⟩, rest.tail)
    | _, _ => return (⟨.clip, indent⟩, rest)

/-- The text after the line that announces a block. -/
def afterHeader (cs : List Char) : Except Fault (List Char) :=
  let cs := cs.dropWhile isBlank
  let cs := if cs.head? = some '#' then cs.dropWhile (fun c => !isBreak c) else cs
  match cs with
  | [] => .ok []
  | c :: rest => if isBreak c then .ok rest else .error .misplaced

/-- The empty lines before the first line of a block: their ends, how far lines
were indented at most, the column that was reached, and the rest. With no given
indentation, `indent` is zero. -/
def leadingBreaks (indent widest column : Nat) (breaks : List Char) :
    List Char → Except Fault (List Char × Nat × Nat × List Char)
  | [] => .ok (breaks, widest, column, [])
  | c :: rest =>
    let inside := indent == 0 || column < indent
    if c == ' ' && inside then
      leadingBreaks indent (max widest (column + 1)) (column + 1) breaks rest
    else if c == '\t' && inside then .error .badIndentation
    else if isBreak c then leadingBreaks indent widest 0 (breaks ++ [c]) rest
    else .ok (breaks, widest, column, c :: rest)

/-- The end of the last line and the line ends after it. -/
structure BlockBreaks where
  last : Option Char
  after : List Char

/-- What stands between two lines of a block. Lines are joined unless one of
them starts with a blank. -/
def BlockBreaks.between (literal indented : Bool) (breaks : BlockBreaks) : List Char :=
  if !literal && breaks.last == some '\n' && !indented then
    if breaks.after.isEmpty then [' '] else breaks.after
  else breaks.last.toList ++ breaks.after

/-- What stands behind the last line of a block. -/
def BlockBreaks.chomped (chomping : Chomping) (breaks : BlockBreaks) : List Char :=
  match chomping with
  | .strip => []
  | .clip => breaks.last.toList
  | .keep => breaks.last.toList ++ breaks.after

/-- Where the reader of a block is. -/
inductive BlockState where
  /-- in the indentation of a line; the line before started with a blank or not -/
  | start (column : Nat) (indented : Bool) (breaks : BlockBreaks)
  | line (indented : Bool)

def blockLines (literal : Bool) (chomping : Chomping) (indent : Nat) :
    BlockState → List Char → Except Fault Scanned
  | .line _, [] => .ok ⟨[], [], true⟩
  | .line indented, c :: rest =>
    if isBreak c then blockLines literal chomping indent (.start 0 indented ⟨some c, []⟩) rest
    else do
      return (← blockLines literal chomping indent (.line indented) rest).after [c]
  | .start _ _ breaks, [] => .ok ⟨breaks.chomped chomping, [], true⟩
  | .start column indented breaks, c :: rest =>
    if c == ' ' && column < indent then
      blockLines literal chomping indent (.start (column + 1) indented breaks) rest
    else if c == '\t' && column < indent then .error .badIndentation
    else if isBreak c then
      blockLines literal chomping indent
        (.start 0 indented { breaks with after := breaks.after ++ [c] }) rest
    else if column == indent then do
      let here := isBlank c
      let s ← blockLines literal chomping indent (.line here) rest
      return s.after (breaks.between literal (indented || here) ++ [c])
    else .ok ⟨breaks.chomped chomping, c :: rest, true⟩

/-- The text of a block whose mark was just read; `parent` is the indentation
around it, one more than its column. -/
def blockText (literal : Bool) (parent : Nat) (cs : List Char) : Except Fault Scanned := do
  let (header, cs) ← blockSigns cs
  let cs ← afterHeader cs
  let given := match header.indent with
    | some n => if parent = 0 then n else parent - 1 + n
    | none => 0
  let (breaks, widest, column, cs) ← leadingBreaks given 0 0 [] cs
  let indent := if given = 0 then max widest (max parent 1) else given
  blockLines literal header.chomping indent (.start column false ⟨none, breaks⟩) cs

end Jobflow.Yaml
