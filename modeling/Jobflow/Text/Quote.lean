import Jobflow.Text.Basic

/-!
Quoting of a text inside a message: printable characters stand for
themselves, the others are written as escapes, so that the message stays on
one line and every character can be told apart.
-/

namespace Jobflow.Text

/-- Blocks of characters that have no visible form of their own: controls,
formats, separators other than the space, private use and unassigned planes. -/
def invisibleBlocks : List (Nat × Nat) :=
  [(0x00, 0x1F), (0x7F, 0xA0), (0xAD, 0xAD), (0x0600, 0x0605), (0x061C, 0x061C),
   (0x06DD, 0x06DD), (0x070F, 0x070F), (0x08E2, 0x08E2), (0x1680, 0x1680), (0x180E, 0x180E),
   (0x2000, 0x200F), (0x2028, 0x202F), (0x205F, 0x206F), (0x3000, 0x3000), (0xE000, 0xF8FF),
   (0xFEFF, 0xFEFF), (0xFFF0, 0xFFFB), (0xFFFE, 0xFFFF), (0x1FFFE, 0x1FFFF),
   (0x2FFFE, 0x2FFFF), (0x323B0, 0xE00FF), (0xE01F0, 0x10FFFF)]

/-- Blocks of marks that are drawn onto the character before them. -/
def combiningBlocks : List (Nat × Nat) :=
  [(0x0300, 0x036F), (0x0483, 0x0489), (0x0591, 0x05BD), (0x05BF, 0x05BF), (0x05C1, 0x05C2),
   (0x05C4, 0x05C5), (0x05C7, 0x05C7), (0x0610, 0x061A), (0x064B, 0x065F), (0x0670, 0x0670),
   (0x06D6, 0x06DC), (0x06DF, 0x06E4), (0x06E7, 0x06E8), (0x06EA, 0x06ED), (0x0900, 0x0902),
   (0x093A, 0x093A), (0x093C, 0x093C), (0x0941, 0x0948), (0x094D, 0x094D), (0x0951, 0x0957),
   (0x0E31, 0x0E31), (0x0E34, 0x0E3A), (0x0E47, 0x0E4E), (0x1AB0, 0x1ACE), (0x1DC0, 0x1DFF),
   (0x20D0, 0x20F0), (0x302A, 0x302F), (0x3099, 0x309A), (0xFE00, 0xFE0F), (0xFE20, 0xFE2F),
   (0xE0100, 0xE01EF)]

def inBlocks (blocks : List (Nat × Nat)) (n : Nat) : Bool :=
  blocks.any fun block => block.1 ≤ n && n ≤ block.2

/-- The hexadecimal digits of `n` without leading zeros. -/
def shortHex (n : Nat) : List Char :=
  match (hexDigits 6 n).dropWhile (· == '0') with
  | [] => ['0']
  | digits => digits

def codePointEscape (c : Char) : List Char :=
  ['\\', 'u', '\x7b'] ++ shortHex c.toNat ++ ['\x7d']

/-- One character as it stands between the quotes of a quoted text. -/
def quotedChar (c : Char) : List Char :=
  if c == '\x00' then ['\\', '0']
  else if c == '\t' then ['\\', 't']
  else if c == '\n' then ['\\', 'n']
  else if c == '\r' then ['\\', 'r']
  else if c == '"' then ['\\', '"']
  else if c == '\\' then ['\\', '\\']
  else if inBlocks invisibleBlocks c.toNat || inBlocks combiningBlocks c.toNat then
    codePointEscape c
  else [c]

/-- The text between double quotes, with escapes for what cannot be shown. -/
def quoted (s : String) : String :=
  String.ofList ('"' :: s.toList.flatMap quotedChar ++ ['"'])

end Jobflow.Text
