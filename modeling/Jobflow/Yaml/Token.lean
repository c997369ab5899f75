import Jobflow.Yaml.Scalar

/-!
The tokens of a YAML text. Blocks have no brackets of their own, so their ends
are found from the indentation; and a key is only known as one when its colon is
reached, so wherever a key may start a slot is kept open that is filled or
dropped later.
-/

namespace Jobflow.Yaml

/-- How a scalar is written. -/
inductive Style where
  | plain
  | singleQuoted
  | doubleQuoted
  | literal
  | folded
  deriving DecidableEq, Repr

inductive Token where
  | version (major minor : Nat)
  | tagHandle (handle start : String)
  | documentStart
  | documentEnd
  | blockSequence
  | blockMapping
  | blockEnd
  | openBracket
  | closeBracket
  | openBrace
  | closeBrace
  | dash
  | comma
  | key
  | value
  | alias (name : String)
  | anchor (name : String)
  | tag (handle suffix : String)
  | scalar (style : Style) (text : String)
  deriving DecidableEq, Repr

/-! ### Names -/

/-- A character of an anchor or a handle. -/
def isNameChar (c : Char) : Bool :=
  Text.isAlphanumeric c || c == '-' || c == '_'

/-- A character that a tag may hold. -/
def isTagChar (verbatim : Bool) (c : Char) : Bool :=
  isNameChar c || ";/?:@&=+$.!~*'()%".toList.contains c ||
    (verbatim && (c == ',' || c == '[' || c == ']'))

/-- Whether every percent sign is followed by two hexadecimal digits. -/
def percentsWhole : List Char → Bool
  | [] => true
  | '%' :: a :: b :: rest =>
    (Text.hexValue? a).isSome && (Text.hexValue? b).isSome && percentsWhole rest
  | c :: rest => c != '%' && percentsWhole rest

/-- The longest text of characters of a tag. -/
def tagText (verbatim : Bool) (cs : List Char) : Except Fault (List Char × List Char) :=
  let text := cs.takeWhile (isTagChar verbatim)
  if percentsWhole text then .ok (text, cs.drop text.length) else .error .badEscape

/-- The handle at the start of a tag: an exclamation mark, possibly with a name
and another mark. -/
def handleText (cs : List Char) : List Char :=
  match cs with
  | '!' :: rest =>
    let name := rest.takeWhile isNameChar
    match rest.drop name.length with
    | '!' :: _ => '!' :: name ++ ['!']
    | _ => '!' :: name
  | _ => []

/-- The tag whose exclamation mark comes next: its handle and its suffix. -/
def tagToken (inFlow : Bool) (cs : List Char) : Except Fault (Token × List Char) := do
  let (handle, suffix, rest) ← match cs with
    | '!' :: '<' :: rest => do
      let (text, rest) ← tagText true rest
      match text, rest with
      | _ :: _, '>' :: rest => pure ([], text, rest)
      | _, _ => .error .misplaced
    | cs => do
      let handle := handleText cs
      let (text, rest) ← tagText false (cs.drop handle.length)
      if 1 < handle.length ∧ handle.getLast? = some '!' then
        if text.isEmpty then .error .misplaced else pure (handle, text, rest)
      else
        match handle.drop 1 ++ text with
        | [] => pure ([], ['!'], rest)
        | suffix => pure (['!'], suffix, rest)
  if atGap rest || (inFlow && rest.head? == some ',') then
    return (.tag (String.ofList handle) (String.ofList suffix), rest)
  else .error .misplaced

/-- The name behind the sign of an anchor or an alias. -/
def anchorName (cs : List Char) : Except Fault (String × List Char) :=
  let name := cs.takeWhile isNameChar
  let rest := cs.drop name.length
  let ends := match rest with
    | [] => true
    | c :: _ => atGap rest || "?:,]\x7d%@\x60".toList.contains c
  if name.isEmpty || !ends then .error .misplaced else .ok (String.ofList name, rest)

/-! ### Directives -/

/-- A number of at most nine digits. -/
def versionNumber (cs : List Char) : Except Fault (Nat × List Char) :=
  let digits := cs.takeWhile Text.isDigit
  if digits.isEmpty || 9 < digits.length then .error .misplaced
  else .ok (Text.decimalValue digits, cs.drop digits.length)

def directive (cs : List Char) : Except Fault (Token × List Char) := do
  let name := cs.takeWhile isNameChar
  let rest := cs.drop name.length
  if !atGap rest then .error .misplaced
  let (token, rest) ← match String.ofList name with
    | "YAML" => do
      let (major, rest) ← versionNumber (rest.dropWhile isBlank)
      match rest with
      | '.' :: rest => do
        let (minor, rest) ← versionNumber rest
        pure (Token.version major minor, rest)
      | _ => .error .misplaced
    | "TAG" => do
      let cs := rest.dropWhile isBlank
      let handle := handleText cs
      let rest := cs.drop handle.length
      if handle.isEmpty || (handle ≠ ['!'] && handle.getLast? ≠ some '!') ||
          !(rest.head?.any isBlank) then .error .misplaced
      let (start, rest) ← tagText true (rest.dropWhile isBlank)
      if start.isEmpty || !atGap rest then .error .misplaced
      pure (Token.tagHandle (String.ofList handle) (String.ofList start), rest)
    | _ => .error .misplaced
  return (token, ← afterHeader rest)

/-! ### The scanner -/

/-- A piece of the token list: a token, or an open slot. -/
inductive Piece where
  | token (token : Token)
  | slot (number : Nat)

/-- A key that may have started, and whether the indentation makes it one. -/
structure OpenKey where
  slot : Nat
  isRequired : Bool
  index : Nat
  line : Nat
  column : Nat

/-- A slot that turned out to be a key; the first key of a block opens it. -/
structure FilledSlot where
  slot : Nat
  opensBlock : Bool

structure Scanner where
  cursor : Cursor
  /-- the last piece first -/
  pieces : List Piece
  filled : List FilledSlot
  slots : Nat
  /-- the columns of the open blocks, the innermost first -/
  blocks : List Nat
  /-- whether a key may start here -/
  allowsKey : Bool
  /-- the key that may have started, for every open collection, the innermost
  first, and at last for the blocks -/
  key : Option OpenKey
  outerKeys : List (Option OpenKey)

namespace Scanner

def start (cs : List Char) : Scanner where
  cursor := .start cs
  pieces := []
  filled := []
  slots := 0
  blocks := []
  allowsKey := true
  key := none
  outerKeys := []

/-- Whether the place is inside brackets or braces. -/
def inFlow (s : Scanner) : Bool := !s.outerKeys.isEmpty

/-- One more than the column of the innermost block; zero outside of blocks. -/
def indent (s : Scanner) : Nat :=
  match s.blocks with
  | [] => 0
  | column :: _ => column + 1

def push (s : Scanner) (token : Token) : Scanner :=
  { s with pieces := .token token :: s.pieces }

def goTo (s : Scanner) (rest : List Char) : Scanner :=
  { s with cursor := s.cursor.skipTo rest }

/-- Closes the blocks that are indented by `indent` or more. -/
def closeBlocks (s : Scanner) (indent : Nat) : Scanner :=
  if s.inFlow then s
  else
    let inner := s.blocks.takeWhile fun column => indent ≤ column
    { s with
      pieces := inner.map (fun _ => .token .blockEnd) ++ s.pieces
      blocks := s.blocks.drop inner.length }

/-- Opens a block at a column, unless one is open there. -/
def openBlock (s : Scanner) (column : Nat) (token : Token) : Scanner :=
  if !s.inFlow && s.indent ≤ column then { s.push token with blocks := column :: s.blocks }
  else s

/-- Gives up the key that may have started. -/
def dropKey (s : Scanner) : Except Fault Scanner :=
  match s.key with
  | some key => if key.isRequired then .error .unfinished else .ok { s with key := none }
  | none => .ok s

/-- Keeps a slot open for a key that may start here. -/
def saveKey (s : Scanner) : Except Fault Scanner :=
  if s.allowsKey then do
    let s ← s.dropKey
    let c := s.cursor
    let isRequired := !s.inFlow && s.blocks.head? == some c.column
    return { s with
      pieces := .slot s.slots :: s.pieces
      slots := s.slots + 1
      key := some ⟨s.slots, isRequired, c.index, c.line, c.column⟩ }
  else .ok s

/-- Whether a key that started there can no longer end here. -/
def isStale (cursor : Cursor) (key : OpenKey) : Bool :=
  key.line < cursor.line || key.index + 1024 < cursor.index

/-- Gives up a key that can no longer end. -/
def dropStale (cursor : Cursor) : Option OpenKey → Except Fault (Option OpenKey)
  | none => .ok none
  | some key =>
    if isStale cursor key then (if key.isRequired then .error .unfinished else .ok none)
    else .ok (some key)

def dropStaleKeys (s : Scanner) : Except Fault Scanner := do
  let key ← dropStale s.cursor s.key
  let outerKeys ← s.outerKeys.mapM (dropStale s.cursor)
  return { s with key := key, outerKeys := outerKeys }

/-- How far blanks, comments and empty lines go, and whether a key may start
behind them. -/
def gapEnd (inFlow : Bool) : (inComment allowsKey : Bool) → List Char → Bool × List Char
  | _, allowsKey, [] => (allowsKey, [])
  | inComment, allowsKey, c :: rest =>
    if isBreak c then gapEnd inFlow false (allowsKey || !inFlow) rest
    else if inComment then gapEnd inFlow true allowsKey rest
    else if c == ' ' || (c == '\t' && (inFlow || !allowsKey)) then
      gapEnd inFlow false allowsKey rest
    else if c == '#' then gapEnd inFlow true allowsKey rest
    else (allowsKey, c :: rest)

/-- A token of one character, behind which a key may start or not. -/
def single (s : Scanner) (token : Token) (allowsKey : Bool) : Scanner :=
  { s.push token with cursor := s.cursor.next, allowsKey := allowsKey }

/-- The start of a collection in brackets or braces. -/
def openFlow (s : Scanner) (token : Token) : Except Fault Scanner := do
  let s ← s.saveKey
  return { s.single token true with key := none, outerKeys := s.key :: s.outerKeys }

/-- The end of a collection in brackets or braces. -/
def closeFlow (s : Scanner) (token : Token) : Except Fault Scanner := do
  let s := (← s.dropKey).single token false
  match s.outerKeys with
  | [] => return s
  | key :: outer => return { s with key := key, outerKeys := outer }

/-- The mark of an item or of a key in a block; `token` is the block it opens. -/
def blockMark (s : Scanner) (opens token : Token) (allowsKey : Bool) : Except Fault Scanner := do
  if !s.inFlow && !s.allowsKey then .error .misplaced
  let s ← (s.openBlock s.cursor.column opens).dropKey
  return s.single token allowsKey

def valueMark (s : Scanner) : Except Fault Scanner :=
  match s.key with
  | some key =>
    let opens := !s.inFlow && s.indent ≤ key.column
    let s := { s with
      filled := ⟨key.slot, opens⟩ :: s.filled
      blocks := if opens then key.column :: s.blocks else s.blocks
      key := none }
    .ok (s.single .value false)
  | none =>
    if !s.inFlow && !s.allowsKey then .error .misplaced
    else .ok ((s.openBlock s.cursor.column .blockMapping).single .value (!s.inFlow))

/-- A token with a text of its own, which may be or belong to a key. -/
def textToken (s : Scanner) (token : Token) (rest : List Char) (allowsKey : Bool) :
    Except Fault Scanner := do
  let s ← s.saveKey
  return { (s.push token).goTo rest with allowsKey := allowsKey }

/-- A directive or a mark between documents. -/
def documentToken (s : Scanner) (token : Token) (rest : List Char) : Except Fault Scanner := do
  let s ← (s.closeBlocks 0).dropKey
  return { (s.push token).goTo rest with allowsKey := false }

def startsPlain (inFlow : Bool) (cs : List Char) : Bool :=
  match cs with
  | [] => false
  | c :: rest =>
    !(atGap cs || "-?:,[]\x7b\x7d#&*!|>'\"%@\x60".toList.contains c) ||
      (c == '-' && !(rest.head?.any isBlank)) ||
      (!inFlow && (c == '?' || c == ':') && !atGap rest)

/-- The next token of a text that is not at its end. -/
def token (s : Scanner) (c : Char) (rest : List Char) : Except Fault Scanner := do
  let here := c :: rest
  let flow := s.inFlow
  let atStart := s.cursor.column == 0
  if atStart && c == '%' then
    let (token, rest) ← directive rest
    s.documentToken token rest
  else if atStart && startsWithMark '-' here then s.documentToken .documentStart (here.drop 3)
  else if atStart && startsWithMark '.' here then s.documentToken .documentEnd (here.drop 3)
  else if c == '[' then s.openFlow .openBracket
  else if c == '\x7b' then s.openFlow .openBrace
  else if c == ']' then s.closeFlow .closeBracket
  else if c == '\x7d' then s.closeFlow .closeBrace
  else if c == ',' then return (← s.dropKey).single .comma true
  else if c == '-' && atGap rest then s.blockMark .blockSequence .dash true
  else if c == '?' && (flow || atGap rest) then s.blockMark .blockMapping .key (!flow)
  else if c == ':' && (flow || atGap rest) then s.valueMark
  else if c == '*' then
    let (name, rest) ← anchorName rest
    s.textToken (.alias name) rest false
  else if c == '&' then
    let (name, rest) ← anchorName rest
    s.textToken (.anchor name) rest false
  else if c == '!' then
    let (token, rest) ← tagToken flow here
    s.textToken token rest false
  else if (c == '|' || c == '>') && !flow then
    let s ← s.dropKey
    let block ← blockText (c == '|') s.indent rest
    let style := if c == '|' then Style.literal else .folded
    return { (s.push (.scalar style (String.ofList block.text))).goTo block.rest with
      allowsKey := true }
  else if c == '\'' then
    let quoted ← singleQuoted .none (s.cursor.column + 1) rest
    s.textToken (.scalar .singleQuoted (String.ofList quoted.text)) quoted.rest false
  else if c == '"' then
    let quoted ← doubleQuoted (.text .none) (s.cursor.column + 1) rest
    s.textToken (.scalar .doubleQuoted (String.ofList quoted.text)) quoted.rest false
  else if startsPlain flow here then
    let plain ← plainText flow s.indent .none s.cursor.column here
    s.textToken (.scalar .plain (String.ofList plain.text)) plain.rest plain.endedLine
  else .error .misplaced

/-- Goes to the next token, closing the blocks that end before it. -/
def advance (s : Scanner) : Except Fault Scanner := do
  let (allowsKey, rest) := gapEnd s.inFlow false s.allowsKey s.cursor.rest
  let s ← { s.goTo rest with allowsKey := allowsKey }.dropStaleKeys
  match s.cursor.rest with
  | [] => (s.closeBlocks 0).dropKey
  | _ => return s.closeBlocks (s.cursor.column + 1)

/-- Reads tokens to the end of the text. Every token takes at least one
character, so the length of the text bounds their number. -/
def run : Nat → Scanner → Except Fault Scanner
  | 0, s => .ok s
  | n + 1, s => do
    let s ← s.advance
    match s.cursor.rest with
    | [] => return s
    | c :: rest => run n (← s.token c rest)

def settle (filled : List FilledSlot) : Piece → List Token
  | .token token => [token]
  | .slot number =>
    match filled.find? fun slot => slot.slot == number with
    | some slot => if slot.opensBlock then [.blockMapping, .key] else [.key]
    | none => []

end Scanner

def tokens (text : String) : Except Fault (List Token) := do
  let cs ← sourceChars text
  let s ← Scanner.run (cs.length + 1) (.start cs)
  return s.pieces.reverse.flatMap (Scanner.settle s.filled)

end Jobflow.Yaml
