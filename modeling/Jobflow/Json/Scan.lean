import Jobflow.Json.Document

/-!
From characters to documents. Strings, numbers and keywords are recognised one
character at a time; lists and objects nest to any depth, and the fuel of the
mutual recursion is the length of the text, which every step shortens.
-/

namespace Jobflow.Json

open Jobflow.Decimal (Binary64)

/-- The four blanks of JSON. -/
def isSpace (c : Char) : Bool :=
  c == ' ' || c == '\n' || c == '\t' || c == '\r'

/-- The text from its first character that is not blank. -/
def skipSpace (cs : List Char) : List Char :=
  cs.dropWhile isSpace

/-! ### Strings -/

/-- Where the scanner of a string stands. -/
inductive StringState where
  /-- between characters -/
  | plain
  /-- after a backslash -/
  | escape
  /-- inside four hexadecimal digits: how many were read, their value, and the
  leading surrogate they follow, if any -/
  | hex (count value : Nat) (lead : Option Nat)
  /-- after the escape of a leading surrogate -/
  | afterLead (lead : Nat)
  /-- after such an escape and a backslash -/
  | afterLeadEscape (lead : Nat)
  deriving DecidableEq, Repr

/-- A string read to its closing quotation mark with the rest of the text, or
the fault that ends the text. -/
inductive StringScan where
  | closed (content : Except SyntaxError (List Char)) (rest : List Char)
  | broken (fault : Fault)

namespace StringScan

/-- The scan of a string that has one character more in front. -/
def cons (c : Char) : StringScan → StringScan
  | .closed content rest => .closed (content.map (c :: ·)) rest
  | .broken fault => .broken fault

/-- The scan of a string whose reading already failed before. -/
def failed (cause : SyntaxError) : StringScan → StringScan
  | .closed _ rest => .closed (.error cause) rest
  | .broken fault => .broken { fault with reading := cause }

end StringScan

/-- The character of a one-letter escape. -/
def simpleEscape? (c : Char) : Option Char :=
  if c == '"' then some '"'
  else if c == '\\' then some '\\'
  else if c == '/' then some '/'
  else if c == 'b' then some '\x08'
  else if c == 'f' then some '\x0c'
  else if c == 'n' then some '\n'
  else if c == 'r' then some '\r'
  else if c == 't' then some '\t'
  else none

def isLeadSurrogate (n : Nat) : Bool := 0xD800 ≤ n && n ≤ 0xDBFF

def isTrailSurrogate (n : Nat) : Bool := 0xDC00 ≤ n && n ≤ 0xDFFF

/-- The character of a surrogate pair. -/
def pairChar (lead trail : Nat) : Char :=
  Char.ofNat ((lead - 0xD800) * 0x400 + (trail - 0xDC00) + 0x10000)

def byteLength (cs : List Char) : Nat :=
  cs.foldl (fun n c => n + c.utf8Size) 0

/-- Scans a string from inside it. -/
def scanString (state : StringState) : List Char → StringScan
  | [] => .broken (.plain .endInString)
  | c :: rest =>
    /- one character between escapes -/
    let between (_ : Unit) : StringScan :=
      if c == '"' then .closed (.ok []) rest
      else if c == '\\' then scanString .escape rest
      else if c.toNat < 0x20 then .broken (.plain .controlCharacter)
      else (scanString .plain rest).cons c
    /- the character after a backslash -/
    let escaped (_ : Unit) : StringScan :=
      if c == 'u' then scanString (.hex 0 0 none) rest
      else match simpleEscape? c with
        | some d => (scanString .plain rest).cons d
        | none => .broken (.plain .invalidEscape)
    match state with
    | .plain => between ()
    | .escape => escaped ()
    | .hex count value lead =>
      match Text.hexValue? c with
      | none =>
        if count + byteLength (c :: rest) < 4 then .broken (.plain .endInString)
        else .broken (.plain .invalidEscape)
      | some digit =>
        let value := 16 * value + digit
        if count < 3 then scanString (.hex (count + 1) value lead) rest
        else match lead with
          | none =>
            if isTrailSurrogate value then (scanString .plain rest).failed .loneSurrogate
            else if isLeadSurrogate value then scanString (.afterLead value) rest
            else (scanString .plain rest).cons (Char.ofNat value)
          | some lead =>
            if isTrailSurrogate value then (scanString .plain rest).cons (pairChar lead value)
            else (scanString .plain rest).failed .loneSurrogate
    | .afterLead lead =>
      if c == '\\' then scanString (.afterLeadEscape lead) rest
      else (between ()).failed .unfinishedSurrogate
    | .afterLeadEscape lead =>
      if c == 'u' then scanString (.hex 0 0 (some lead)) rest
      else (escaped ()).failed .unfinishedSurrogate

/-! ### Numbers -/

/-- A literal number: sign, digits before and after the point, and exponent. -/
structure Literal where
  negative : Bool
  whole : List Char
  fraction : List Char
  exponent : Option (Bool × List Char)

/-- Digits taken into a 64-bit significand: the significand, the number of
digits taken, and the digits that no longer fit. -/
def takeDigits (significand count : Nat) : List Char → Nat × Nat × List Char
  | [] => (significand, count, [])
  | c :: rest =>
    let next := 10 * significand + Text.digitValue c
    if Text.maxU64 < next then (significand, count, c :: rest)
    else takeDigits next (count + 1) rest

/-- `± significand · 10 ^ power` by one multiplication or division with a power
of ten; powers beyond the table divide by its last entry first. -/
def scaleByTen (x : Binary64) (power : Int) : Nat → Except SyntaxError Binary64
  | 0 => .ok x
  | fuel + 1 =>
    if power.natAbs ≤ 308 then
      match Binary64.ofDecimal false 1 power.natAbs with
      | none => .error .numberOutOfRange
      | some ten =>
        if 0 ≤ power then
          match x.mul ten with
          | some y => .ok y
          | none => .error .numberOutOfRange
        else .ok ((x.div ten).getD x)
    else if x.isZero then .ok x
    else if 0 ≤ power then .error .numberOutOfRange
    else
      match Binary64.ofDecimal false 1 308 with
      | none => .error .numberOutOfRange
      | some ten => scaleByTen ((x.div ten).getD x) (power + 308) fuel

/-- The greatest number of 31 bits, where exponents saturate. -/
def maxExponent : Nat := 2147483647

namespace Literal

/-- A literal with a point or an exponent, or too long for 64 bits: the digits
that fit 64 bits are kept and the others only count as powers of ten. -/
def real (lit : Literal) : Except SyntaxError Number := do
  let (significand, _, dropped) := takeDigits 0 0 lit.whole
  let (significand, taken, _) := takeDigits significand 0 lit.fraction
  let start : Int := (dropped.length : Int) - taken
  let signed (x : Binary64) : Number := .real { x with negative := lit.negative }
  let scale (power : Int) : Except SyntaxError Number := do
    let x ← scaleByTen (Binary64.ofNat significand) power 8
    return signed x
  match lit.exponent with
  | none => scale start
  | some (below, digits) =>
    let size := Text.decimalValue digits
    if maxExponent < size then
      if significand ≠ 0 ∧ !below then .error .numberOutOfRange
      else .ok (signed Binary64.zero)
    else scale (if below then start - size else start + size)

def number (lit : Literal) : Except SyntaxError Number :=
  let size := Text.decimalValue lit.whole
  if lit.fraction.isEmpty ∧ lit.exponent.isNone ∧ size ≤ Text.maxU64 then
    if !lit.negative then .ok (.whole size)
    else if size = 0 ∨ Nat.pow 2 63 < size then
      .ok (.real { Binary64.ofNat size with negative := true })
    else .ok (.whole (-(size : Int)))
  else lit.real

end Literal

/-- Digits are required and there are none: at the end of the text a reader
reports the end, a skipper the number. -/
def digitsMissing (rest : List Char) : Fault :=
  if rest.isEmpty then ⟨.endInValue, .invalidNumber⟩ else .plain .invalidNumber

/-- The digits at the start of a text, at least one, and the text after them. -/
def someDigits (cs : List Char) : Except Fault (List Char × List Char) :=
  match cs.span Text.isDigit with
  | ([], rest) => .error (digitsMissing rest)
  | found => .ok found

/-- The digits before the point: one zero, or digits that start with no zero. -/
def wholeDigits (cs : List Char) : Except Fault (List Char × List Char) := do
  let (digits, rest) ← someDigits cs
  match digits with
  | '0' :: _ :: _ => .error (.plain .invalidNumber)
  | _ => return (digits, rest)

/-- The point and the digits after it, if there is a point. -/
def fractionDigits : List Char → Except Fault (List Char × List Char)
  | '.' :: rest => someDigits rest
  | rest => .ok ([], rest)

/-- The sign and digits of an exponent, if there is one. -/
def exponentDigits : List Char → Except Fault (Option (Bool × List Char) × List Char)
  | c :: rest =>
    if c == 'e' || c == 'E' then
      let (below, rest) := match rest with
        | '-' :: after => (true, after)
        | '+' :: after => (false, after)
        | _ => (false, rest)
      do
        let (digits, rest) ← someDigits rest
        return (some (below, digits), rest)
    else .ok (none, c :: rest)
  | [] => .ok (none, [])

def scanLiteral (cs : List Char) : Except Fault (Literal × List Char) := do
  let (negative, cs) := match cs with
    | '-' :: rest => (true, rest)
    | _ => (false, cs)
  let (whole, cs) ← wholeDigits cs
  let (fraction, cs) ← fractionDigits cs
  let (exponent, cs) ← exponentDigits cs
  return (⟨negative, whole, fraction, exponent⟩, cs)

/-! ### Keywords -/

/-- The rest of a keyword whose first letter was seen. -/
def scanKeyword : List Char → List Char → Except SyntaxError (List Char)
  | [], rest => .ok rest
  | _ :: _, [] => .error .endInValue
  | k :: ks, c :: rest => if k = c then scanKeyword ks rest else .error .expectedIdent

/-! ### Values -/

/-- A value with the text after it; no text when a fault ends the document. -/
structure Scanned (α : Type) where
  found : α
  rest : Option (List Char)

/-- A document that ends here with a fault. -/
def Scanned.broken (fault : Fault) : Scanned Document := ⟨.broken fault, none⟩

def scanNumber (cs : List Char) : Scanned Document :=
  match scanLiteral cs with
  | .ok (lit, rest) => ⟨.number lit.number, some rest⟩
  | .error fault => .broken fault

def scanWord (word : List Char) (value : Document) (rest : List Char) : Scanned Document :=
  match scanKeyword word rest with
  | .ok rest => ⟨value, some rest⟩
  | .error cause => .broken (.plain cause)

mutual

def scanValue : Nat → List Char → Scanned Document
  | 0, _ => .broken (.plain .endInValue)
  | fuel + 1, cs =>
    match skipSpace cs with
    | [] => .broken (.plain .endInValue)
    | c :: rest =>
      if c == '"' then
        match scanString .plain rest with
        | .closed content rest => ⟨.string (content.map String.ofList), some rest⟩
        | .broken fault => .broken fault
      else if c == '[' then
        match skipSpace rest with
        | ']' :: rest => ⟨.array [] .closed, some rest⟩
        | [] => ⟨.array [] .ended, none⟩
        | rest =>
          let ⟨(items, stop), rest⟩ := scanItems fuel rest
          ⟨.array items stop, rest⟩
      else if c == '\x7b' then
        match skipSpace rest with
        | '\x7d' :: rest => ⟨.object [] .closed, some rest⟩
        | [] => ⟨.object [] .ended, none⟩
        | rest =>
          let ⟨(members, stop), rest⟩ := scanMembers fuel rest
          ⟨.object members stop, rest⟩
      else if c == '-' || Text.isDigit c then scanNumber (c :: rest)
      else if c == 'n' then scanWord ['u', 'l', 'l'] .null rest
      else if c == 't' then scanWord ['r', 'u', 'e'] (.bool true) rest
      else if c == 'f' then scanWord ['a', 'l', 's', 'e'] (.bool false) rest
      else .broken (.plain .expectedValue)

/-- The items of a list from its first item on. -/
def scanItems : Nat → List Char → Scanned (List Document × Stop)
  | 0, _ => ⟨([], .ended), none⟩
  | fuel + 1, cs =>
    let ⟨item, rest⟩ := scanValue fuel cs
    match rest with
    | none => ⟨([item], .ended), none⟩
    | some rest =>
      match skipSpace rest with
      | ']' :: rest => ⟨([item], .closed), some rest⟩
      | [] => ⟨([item], .ended), none⟩
      | ',' :: rest =>
        match skipSpace rest with
        | ']' :: _ => ⟨([item], .danglingComma), none⟩
        | [] => ⟨([item], .endedAfterComma), none⟩
        | rest =>
          let ⟨(items, stop), rest⟩ := scanItems fuel rest
          ⟨(item :: items, stop), rest⟩
      | _ => ⟨([item], .unseparated), none⟩

/-- The members of an object from its first member on. -/
def scanMembers :
    Nat → List Char → Scanned (List (Except SyntaxError String × Document) × Stop)
  | 0, _ => ⟨([], .ended), none⟩
  | fuel + 1, cs =>
    match cs with
    | '"' :: rest =>
      match scanString .plain rest with
      | .broken fault => ⟨([], .keyBroken fault), none⟩
      | .closed content rest =>
        let name := content.map String.ofList
        match skipSpace rest with
        | ':' :: rest =>
          let ⟨value, rest⟩ := scanValue fuel rest
          match rest with
          | none => ⟨([(name, value)], .ended), none⟩
          | some rest =>
            match skipSpace rest with
            | '\x7d' :: rest => ⟨([(name, value)], .closed), some rest⟩
            | [] => ⟨([(name, value)], .ended), none⟩
            | ',' :: rest =>
              match skipSpace rest with
              | '\x7d' :: _ => ⟨([(name, value)], .danglingComma), none⟩
              | [] => ⟨([(name, value)], .endedAfterComma), none⟩
              | rest =>
                let ⟨(members, stop), rest⟩ := scanMembers fuel rest
                ⟨((name, value) :: members, stop), rest⟩
            | _ => ⟨([(name, value)], .unseparated), none⟩
        | [] => ⟨([(name, .broken (.plain .endInObject))], .ended), none⟩
        | _ => ⟨([(name, .broken (.plain .expectedColon))], .ended), none⟩
    | _ => ⟨([], .keyMissing), none⟩

end

def scan (text : String) : Source :=
  let cs := text.toList
  let ⟨document, rest⟩ := scanValue (2 * cs.length + 2) cs
  match rest with
  | none => ⟨document, false⟩
  | some rest => ⟨document, !(skipSpace rest).isEmpty⟩

end Jobflow.Json
