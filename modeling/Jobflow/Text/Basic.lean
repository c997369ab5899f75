/-!
Plain text as the rest of the library reads it: blanks in the sense of the
Unicode `White_Space` property, letters compared up to ASCII case, and decimal
numbers. Everything is defined on the list of characters of a text, where
recursion is structural.
-/

namespace Jobflow.Text

/-- The characters with the Unicode property `White_Space`. -/
def isBlankChar (c : Char) : Bool :=
  let n := c.toNat
  (0x09 ≤ n && n ≤ 0x0D) || n == 0x20 || n == 0x85 || n == 0xA0 || n == 0x1680 ||
  (0x2000 ≤ n && n ≤ 0x200A) || n == 0x2028 || n == 0x2029 || n == 0x202F || n == 0x205F ||
  n == 0x3000

/-- The list without the elements at its end that satisfy `p`. -/
def dropEndWhile {α : Type} (p : α → Bool) (xs : List α) : List α :=
  xs.foldr (fun x kept => if kept.isEmpty && p x then [] else x :: kept) []

/-- The characters without leading and trailing blanks. -/
def trimChars (cs : List Char) : List Char :=
  dropEndWhile isBlankChar (cs.dropWhile isBlankChar)

/-- The text without leading and trailing blanks. -/
def trim (s : String) : String :=
  String.ofList (trimChars s.toList)

/-- A text of blanks only, the empty text included. -/
def isBlank (s : String) : Bool :=
  s.toList.all isBlankChar

/-- The lower-case letter of an ASCII capital; any other character is kept. -/
def lowerChar (c : Char) : Char :=
  if 'A' ≤ c ∧ c ≤ 'Z' then Char.ofNat (c.toNat + 32) else c

/-- The text with its ASCII capitals made small. -/
def lower (s : String) : String :=
  String.ofList (s.toList.map lowerChar)

/-- Equality up to the case of ASCII letters. -/
def sameIgnoringCase (s t : String) : Bool :=
  s.toList.map lowerChar == t.toList.map lowerChar

/-- An ASCII digit. -/
def isDigit (c : Char) : Bool :=
  '0' ≤ c && c ≤ '9'

/-- An ASCII letter or digit. -/
def isAlphanumeric (c : Char) : Bool :=
  isDigit c || ('a' ≤ c && c ≤ 'z') || ('A' ≤ c && c ≤ 'Z')

def digitValue (c : Char) : Nat :=
  c.toNat - '0'.toNat

/-- The number a list of digits writes in base ten, most significant first. -/
def decimalValue (cs : List Char) : Nat :=
  cs.foldl (fun n c => 10 * n + digitValue c) 0

/-- The value of a hexadecimal digit of either case. -/
def hexValue? (c : Char) : Option Nat :=
  if isDigit c then some (digitValue c)
  else if 'a' ≤ c ∧ c ≤ 'f' then some (c.toNat - 'a'.toNat + 10)
  else if 'A' ≤ c ∧ c ≤ 'F' then some (c.toNat - 'A'.toNat + 10)
  else none

/-- The lower-case hexadecimal digit of a number below sixteen. -/
def hexDigit (n : Nat) : Char :=
  if n < 10 then Char.ofNat ('0'.toNat + n) else Char.ofNat ('a'.toNat + (n - 10))

/-- The `width` low hexadecimal digits of `n`, most significant first. -/
def hexDigits : Nat → Nat → List Char
  | 0, _ => []
  | width + 1, n => hexDigits width (n / 16) ++ [hexDigit (n % 16)]

/-- The decimal digits of `n` on at least `width` places. -/
def padded (width n : Nat) : String :=
  let digits := (Nat.repr n).toList
  String.ofList (List.replicate (width - digits.length) '0' ++ digits)

/-- The largest number of 64 bits. -/
def maxU64 : Nat := 18446744073709551615

/-- An unsigned decimal number of at most 64 bits, with an optional `+`. -/
def readU64? (s : String) : Option Nat :=
  let digits := match s.toList with
    | '+' :: rest => rest
    | all => all
  if digits.isEmpty || !digits.all isDigit then none
  else if decimalValue digits ≤ maxU64 then some (decimalValue digits)
  else none

/-- Whether `needle` occurs in `hay` as a block of consecutive characters. -/
def occursIn (needle : List Char) : List Char → Bool
  | [] => needle.isEmpty
  | c :: rest => needle.isPrefixOf (c :: rest) || occursIn needle rest

/-- Whether the text `hay` contains the text `needle`. -/
def contains (hay needle : String) : Bool :=
  occursIn needle.toList hay.toList

/-- The pieces of a list between the elements that satisfy `p`. -/
def splitBy {α : Type} (p : α → Bool) : List α → List (List α)
  | [] => [[]]
  | x :: rest =>
    if p x then [] :: splitBy p rest
    else match splitBy p rest with
      | [] => [[x]]
      | piece :: pieces => (x :: piece) :: pieces

/-- The text filled up with spaces on the right to `width` characters. -/
def padRight (width : Nat) (s : String) : String :=
  s ++ String.ofList (List.replicate (width - s.toList.length) ' ')

end Jobflow.Text
