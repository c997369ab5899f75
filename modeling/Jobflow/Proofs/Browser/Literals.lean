import Jobflow.Proofs.Json.Printing

/-!
String literals as a script has them. A literal is read by the rules of JavaScript: between single
or double quotation marks stand characters and escapes, the value is a sequence of code units of 16
bits, and a literal ends at the first quotation mark of its kind that is not escaped. The literal
that is written for a text is read as that text and as nothing more, whatever follows it.
-/

namespace Jobflow.Browser.Script

open Jobflow.Json (literal literalChars escapedChar)
open Jobflow.Text (hexDigit hexDigits hexValue? isDigit)

/-! ### Code units -/

/-- The code units of a code point in UTF-16. -/
def pointUnits (n : Nat) : List Nat :=
  if n < 0x10000 then [n] else [0xD800 + (n - 0x10000) / 0x400, 0xDC00 + (n - 0x10000) % 0x400]

/-- The code units of a text. -/
def units (s : String) : List Nat := s.toList.flatMap fun c => pointUnits c.toNat

theorem pointUnits_ne_nil (n : Nat) : pointUnits n ≠ [] := by
  unfold pointUnits
  split <;> exact List.cons_ne_nil _ _

/-- No code point of a character is one that UTF-16 needs for its pairs. -/
theorem not_surrogate (c : Char) : c.toNat < 0xD800 ∨ 0xDFFF < c.toNat := by
  rcases c.valid with h | ⟨h, -⟩
  · exact .inl h
  · exact .inr h

theorem toNat_lt (c : Char) : c.toNat < 0x110000 := by
  rcases c.valid with h | ⟨-, h⟩
  · exact Nat.lt_trans h (by decide)
  · exact h

/-- The units of a character say where they end. -/
theorem pointUnits_append {c d : Char} {us vs : List Nat}
    (h : pointUnits c.toNat ++ us = pointUnits d.toNat ++ vs) : c = d ∧ us = vs := by
  have hc := not_surrogate c
  have hd := not_surrogate d
  have hcmax := toNat_lt c
  have hdmax := toNat_lt d
  rw [← Char.toNat_inj]
  unfold pointUnits at h
  split at h <;> split at h <;>
    simp only [List.cons_append, List.nil_append, List.cons.injEq] at h
  · exact h
  -- a single unit is no first unit of a pair
  · omega
  · omega
  · exact ⟨by omega, h.2.2⟩

theorem units_injective : Function.Injective units := by
  intro s t h
  rw [← String.toList_inj]
  unfold units at h
  generalize s.toList = cs at h ⊢
  generalize t.toList = ds at h ⊢
  induction cs generalizing ds with
  | nil =>
    cases ds with
    | nil => rfl
    | cons d ds => exact absurd (List.append_eq_nil_iff.mp h.symm).1 (pointUnits_ne_nil _)
  | cons c cs ih =>
    cases ds with
    | nil => exact absurd (List.append_eq_nil_iff.mp h).1 (pointUnits_ne_nil _)
    | cons d ds =>
      obtain ⟨rfl, hrest⟩ := pointUnits_append h
      rw [ih ds hrest]

/-! ### Reading a literal -/

/-- The line feed, the carriage return and the two separators of Unicode. -/
def isLineEnd (c : Char) : Bool :=
  c == '\n' || c == '\r' || c == '\u2028' || c == '\u2029'

/-- The escapes of one letter that do not stand for the letter itself. -/
def letterEscape? (c : Char) : Option Nat :=
  if c == 'b' then some 0x08
  else if c == 't' then some 0x09
  else if c == 'n' then some 0x0A
  else if c == 'v' then some 0x0B
  else if c == 'f' then some 0x0C
  else if c == 'r' then some 0x0D
  else none

/-- So many hexadecimal digits, and what follows them. -/
def readHex : Nat → Nat → List Char → Option (Nat × List Char)
  | 0, value, rest => some (value, rest)
  | _ + 1, _, [] => none
  | count + 1, value, c :: rest =>
    match hexValue? c with
    | some digit => readHex count (16 * value + digit) rest
    | none => none

/-- Hexadecimal digits up to the closing brace. -/
def readBraced : Nat → List Char → Option (Nat × List Char)
  | _, [] => none
  | value, c :: rest =>
    if c == '\x7d' then some (value, rest)
    else match hexValue? c with
      | some digit =>
        if 16 * value + digit < 0x110000 then readBraced (16 * value + digit) rest else none
      | none => none

/-- The code point after `\u`. -/
def readPoint : List Char → Option (Nat × List Char)
  | '\x7b' :: '\x7d' :: _ => none
  | '\x7b' :: rest => readBraced 0 rest
  | rest => readHex 4 0 rest

/-- What an escape stands for, from the character after the backslash on. The end of a line stands
for nothing, and of the escapes with a digit only `\0` is one, if no digit follows. -/
def readEscape : List Char → Option (List Nat × List Char)
  | [] => none
  | c :: rest =>
    if isLineEnd c then
      some ([], if c == '\r' && rest.head? == some '\n' then rest.tail else rest)
    else if c == 'x' then (readHex 2 0 rest).map fun found => ([found.1], found.2)
    else if c == 'u' then (readPoint rest).map fun found => (pointUnits found.1, found.2)
    else if isDigit c then
      if c == '0' && !(rest.head?.any isDigit) then some ([0], rest) else none
    else match letterEscape? c with
      | some unit => some ([unit], rest)
      | none => some (pointUnits c.toNat, rest)

theorem readHex_length {count value n : Nat} {cs rest : List Char}
    (h : readHex count value cs = some (n, rest)) : rest.length ≤ cs.length := by
  fun_induction readHex count value cs with
  | case1 value rest => grind
  | case2 => cases h
  | case3 count value c cs digit hdigit ih => grind
  | case4 => cases h

theorem readBraced_length {value n : Nat} {cs rest : List Char}
    (h : readBraced value cs = some (n, rest)) : rest.length ≤ cs.length := by
  fun_induction readBraced value cs <;> grind

theorem readPoint_length {n : Nat} {cs rest : List Char} (h : readPoint cs = some (n, rest)) :
    rest.length ≤ cs.length := by
  unfold readPoint at h
  split at h
  · cases h
  · exact Nat.le_succ_of_le (readBraced_length h)
  · exact readHex_length h

theorem readEscape_length {us : List Nat} {cs rest : List Char}
    (h : readEscape cs = some (us, rest)) : rest.length < cs.length := by
  cases cs with
  | nil => cases h
  | cons c cs =>
    rw [List.length_cons, Nat.lt_succ_iff]
    rw [readEscape] at h
    split at h
    · grind
    split at h
    · obtain ⟨⟨n, after⟩, hread, ⟨⟩⟩ := Option.map_eq_some_iff.mp h
      exact readHex_length hread
    split at h
    · obtain ⟨⟨n, after⟩, hread, ⟨⟩⟩ := Option.map_eq_some_iff.mp h
      exact readPoint_length hread
    grind

/-- The units up to the closing quotation mark, and what follows it. -/
def readString (quote : Char) (cs : List Char) : Option (List Nat × List Char) :=
  match cs with
  | [] => none
  | c :: rest =>
    if c == quote then some ([], rest)
    else if c == '\\' then
      match _hescape : readEscape rest with
      | some (us, after) => (readString quote after).map fun found => (us ++ found.1, found.2)
      | none => none
    else if c == '\n' || c == '\r' then none
    else (readString quote rest).map fun found => (pointUnits c.toNat ++ found.1, found.2)
termination_by cs.length
decreasing_by
  · exact Nat.lt_succ_of_lt (readEscape_length _hescape)
  · exact Nat.lt_succ_self _

theorem readString_length {quote : Char} {us : List Nat} {cs rest : List Char}
    (h : readString quote cs = some (us, rest)) : rest.length < cs.length := by
  fun_induction readString quote cs generalizing us with
  | case1 => cases h
  | case2 c cs hquote => grind
  | case3 c cs hquote hbackslash vs after hescape ih =>
    obtain ⟨⟨ws, rest⟩, hread, ⟨⟩⟩ := Option.map_eq_some_iff.mp h
    exact Nat.lt_succ_of_lt (Nat.lt_trans (ih hread) (readEscape_length hescape))
  | case4 => cases h
  | case5 => cases h
  | case6 c cs hquote hbackslash hline ih =>
    obtain ⟨⟨ws, rest⟩, hread, ⟨⟩⟩ := Option.map_eq_some_iff.mp h
    exact Nat.lt_succ_of_lt (ih hread)

/-- A string literal of JavaScript: its value in code units, and what follows it. -/
def readLiteral : List Char → Option (List Nat × List Char)
  | [] => none
  | c :: rest => if c == '"' || c == '\'' then readString c rest else none

theorem readLiteral_length {us : List Nat} {cs rest : List Char}
    (h : readLiteral cs = some (us, rest)) : rest.length < cs.length := by
  cases cs with
  | nil => cases h
  | cons c cs =>
    rw [readLiteral] at h
    split at h
    · exact Nat.lt_succ_of_lt (readString_length h)
    · cases h

example : readLiteral "'\\x41\\\n\"'+".toList = some ([0x41, 0x22], ['+']) := by
  simp [readLiteral, readString, readEscape, readHex, isLineEnd, pointUnits, hexValue?, isDigit,
    Text.digitValue]

/-! ### The literal of a text -/

theorem readString_quote (quote : Char) (rest : List Char) :
    readString quote (quote :: rest) = some ([], rest) := by
  simp [readString]

theorem readString_escape {cs after : List Char} {us : List Nat}
    (h : readEscape cs = some (us, after)) :
    readString '"' ('\\' :: cs) =
      (readString '"' after).map fun found => (us ++ found.1, found.2) := by
  rw [readString]
  simp only [Char.reduceBEq, Bool.false_eq_true, if_false, if_true]
  split
  · next hread =>
    obtain ⟨rfl, rfl⟩ := Prod.mk.inj (Option.some.inj (h.symm.trans hread))
    rfl
  · next hread => exact absurd (h.symm.trans hread) nofun

theorem readString_plain {quote c : Char} (hquote : c ≠ quote) (hbackslash : c ≠ '\\')
    (hline : c ≠ '\n') (hreturn : c ≠ '\r') (rest : List Char) :
    readString quote (c :: rest) =
      (readString quote rest).map fun found => (pointUnits c.toNat ++ found.1, found.2) := by
  rw [readString]
  simp [hquote, hbackslash, hline, hreturn]

theorem readHex_hexDigits (width count value n : Nat) (rest : List Char) :
    readHex (width + count) value (hexDigits width n ++ rest) =
      readHex count (16 ^ width * value + n % 16 ^ width) rest := by
  induction width generalizing count n rest with
  | zero => simp [hexDigits, Nat.mod_one]
  | succ width ih =>
    have hvalue : 16 * (16 ^ width * value + n / 16 % 16 ^ width) + n % 16 =
        16 ^ (width + 1) * value + n % 16 ^ (width + 1) := by
      rw [pow_succ', Nat.mod_mul, Nat.mul_assoc]
      omega
    rw [hexDigits, List.append_assoc, Nat.add_right_comm, Nat.add_assoc, ih, List.singleton_append,
      readHex, Text.hexValue?_hexDigit (Nat.mod_lt n (by decide)), ← hvalue]

theorem readEscape_control {c : Char} (h : c.toNat < 0x20) (rest : List Char) :
    readEscape ('u' :: hexDigits 4 c.toNat ++ rest) = some (pointUnits c.toNat, rest) := by
  have hvalue : 16 ^ 4 * 0 + c.toNat % 16 ^ 4 = c.toNat := by omega
  have hfirst : hexDigits 4 c.toNat = '0' :: hexDigits 3 c.toNat := by
    have hzero : c.toNat / 16 / 16 / 16 % 16 = 0 := by omega
    simp only [hexDigits, hzero]
    rfl
  have hread := readHex_hexDigits 4 0 0 c.toNat rest
  rw [hvalue, hfirst] at hread
  rw [hfirst]
  exact congrArg (Option.map fun found => (pointUnits found.1, found.2)) hread

theorem readString_escapedChar (c : Char) (rest : List Char) :
    readString '"' (escapedChar c ++ rest) =
      (readString '"' rest).map fun found => (pointUnits c.toNat ++ found.1, found.2) := by
  unfold escapedChar
  -- the seven characters with an escape of one letter
  iterate 7
    split
    · next h =>
      obtain rfl := beq_iff_eq.mp h
      exact readString_escape rfl
  split
  · next h => exact readString_escape (readEscape_control h rest)
  · next hquote hbackslash _ _ hline hreturn _ _ =>
    exact readString_plain (mt beq_iff_eq.mpr hquote) (mt beq_iff_eq.mpr hbackslash)
      (mt beq_iff_eq.mpr hline) (mt beq_iff_eq.mpr hreturn) rest

/-- The literal of a text is read as the text, and reading stops right behind it. -/
theorem readLiteral_literalChars (raw : String) (rest : List Char) :
    readLiteral (literalChars raw ++ rest) = some (units raw, rest) := by
  have hread (cs : List Char) : readString '"' (cs.flatMap escapedChar ++ '"' :: rest) =
      some (cs.flatMap fun c => pointUnits c.toNat, rest) := by
    induction cs with
    | nil => exact readString_quote '"' rest
    | cons c cs ih =>
      rw [List.flatMap_cons, List.append_assoc, readString_escapedChar, ih]
      rfl
  rw [literalChars, List.append_assoc, List.cons_append]
  exact hread raw.toList

theorem literalChars_append {raw raw' : String} {rest rest' : List Char}
    (h : literalChars raw ++ rest = literalChars raw' ++ rest') : raw = raw' ∧ rest = rest' := by
  have hread := readLiteral_literalChars raw' rest'
  rw [← h, readLiteral_literalChars, Option.some.injEq, Prod.mk.injEq] at hread
  exact ⟨units_injective hread.1, hread.2⟩

end Jobflow.Browser.Script
