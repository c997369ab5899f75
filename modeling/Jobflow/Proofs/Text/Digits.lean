import Jobflow.Text.Basic
import Mathlib.Algebra.Group.Nat.Defs

/-!
Digits that are written and read again: decimal numbers on a number of places, and
hexadecimal numbers of a fixed width.
-/

namespace Jobflow.Text

/-! ### Decimal digits -/

theorem isDigit_eq (c : Char) : isDigit c = c.isDigit := by
  simp [isDigit, Char.isDigit, Char.le_def]

theorem isDigit_iff {c : Char} : isDigit c ↔ 48 ≤ c.toNat ∧ c.toNat ≤ 57 := by
  simp only [isDigit, Bool.and_eq_true, decide_eq_true_eq, Char.le_def, UInt32.le_iff_toNat_le]
  rfl

theorem not_isBlankChar_of_isDigit {c : Char} (h : isDigit c) : isBlankChar c = false := by
  have hbounds := isDigit_iff.mp h
  generalize hn : c.toNat = n at hbounds
  simp [isBlankChar, hn]
  omega

theorem decimalValue_eq (cs : List Char) : decimalValue cs = Nat.ofDigitChars 10 cs 0 := rfl

theorem toList_padded (width n : Nat) :
    (padded width n).toList =
      List.replicate (width - (Nat.toDigits 10 n).length) '0' ++ Nat.toDigits 10 n := by
  simp [padded, Nat.repr_eq_ofList_toDigits]

theorem isDigit_of_mem_padded {width n : Nat} : ∀ c ∈ (padded width n).toList, isDigit c := by
  intro c hc
  rw [toList_padded, List.mem_append] at hc
  rw [isDigit_eq]
  rcases hc with hzero | hdigit
  · rw [List.eq_of_mem_replicate hzero]
    decide
  · exact Nat.isDigit_of_mem_toDigits (by decide) (by decide) hdigit

@[simp] theorem decimalValue_padded (width n : Nat) :
    decimalValue (padded width n).toList = n := by
  rw [decimalValue_eq, toList_padded, Nat.ofDigitChars_append, Nat.ofDigitChars_replicate_zero,
    Nat.mul_zero, Nat.ofDigitChars_ten_toDigits]

theorem padded_ne_nil (width n : Nat) : (padded width n).toList ≠ [] := by
  rw [toList_padded]
  exact List.append_ne_nil_of_right_ne_nil _ Nat.toDigits_ne_nil

/-- A number that fits its places takes exactly these. -/
theorem length_padded {width n : Nat} (hwidth : 0 < width) (hn : n < 10 ^ width) :
    (padded width n).toList.length = width := by
  have hle := (Nat.length_toDigits_le_iff (by decide : 1 < 10) hwidth).mpr hn
  rw [toList_padded, List.length_append, List.length_replicate]
  omega

theorem decimalValue_append (as bs : List Char) :
    decimalValue (as ++ bs) = 10 ^ bs.length * decimalValue as + decimalValue bs := by
  rw [decimalValue_eq, Nat.ofDigitChars_append, Nat.ofDigitChars_eq_ofDigitChars_zero]
  rfl

theorem decimalValue_cons (c : Char) (cs : List Char) :
    decimalValue (c :: cs) = 10 ^ cs.length * digitValue c + decimalValue cs := by
  have hsingle : decimalValue [c] = digitValue c := Nat.zero_add _
  rw [← List.singleton_append, decimalValue_append, hsingle]

@[simp] theorem decimalValue_zeros (count : Nat) : decimalValue (List.replicate count '0') = 0 := by
  rw [decimalValue_eq, Nat.ofDigitChars_replicate_zero, Nat.mul_zero]

@[simp] theorem decimalValue_toDigits (n : Nat) : decimalValue (Nat.toDigits 10 n) = n := by
  rw [decimalValue_eq, Nat.ofDigitChars_ten_toDigits]

/-- Any number of digits stays below the power of ten. -/
theorem decimalValue_lt {cs : List Char} (hcs : ∀ c ∈ cs, isDigit c) :
    decimalValue cs < 10 ^ cs.length := by
  have haux : ∀ n k, n < 10 ^ k →
      cs.foldl (fun n c => 10 * n + digitValue c) n < 10 ^ (k + cs.length) := by
    induction cs with
    | nil => exact fun n k hn => hn
    | cons c rest ih =>
      intro n k hn
      have hdigit : digitValue c ≤ 9 := by
        have hc := isDigit_iff.mp (hcs c List.mem_cons_self)
        have hzero : '0'.toNat = 48 := rfl
        rw [digitValue]
        omega
      have hnext := ih (fun d hd => hcs d (List.mem_cons_of_mem c hd)) (10 * n + digitValue c)
        (k + 1) (by rw [Nat.pow_succ]; omega)
      rw [List.foldl_cons, List.length_cons, ← Nat.add_assoc, Nat.add_right_comm]
      exact hnext
  have hall := haux 0 0 (by decide)
  rwa [Nat.zero_add] at hall

/-- The text does not go on with a digit. -/
def EndsDigits (rest : List Char) : Prop := ∀ c, rest.head? = some c → isDigit c = false

theorem takeWhile_digits {ds rest : List Char} (hds : ∀ c ∈ ds, isDigit c)
    (hrest : EndsDigits rest) :
    (ds ++ rest).takeWhile isDigit = ds := by
  rw [List.takeWhile_append_of_pos hds]
  cases rest with
  | nil => simp
  | cons c rest => simp [hrest c rfl]

theorem dropWhile_digits {ds rest : List Char} (hds : ∀ c ∈ ds, isDigit c)
    (hrest : EndsDigits rest) :
    (ds ++ rest).dropWhile isDigit = rest := by
  rw [List.dropWhile_append_of_pos hds]
  cases rest with
  | nil => rfl
  | cons c rest => simp [hrest c rfl]

/-- A positive number is written without a zero in front. -/
theorem head_toDigits_ne_zero {n : Nat} (hn : n ≠ 0) : (Nat.toDigits 10 n).head? ≠ some '0' := by
  intro hhead
  obtain ⟨rest, hrest⟩ : ∃ rest, Nat.toDigits 10 n = '0' :: rest := by
    cases hdigits : Nat.toDigits 10 n with
    | nil => exact absurd hdigits Nat.toDigits_ne_nil
    | cons c rest =>
      rw [hdigits] at hhead
      obtain rfl := Option.some.inj hhead
      exact ⟨rest, rfl⟩
  have hdigits : ∀ c ∈ rest, isDigit c := by
    intro c hc
    rw [isDigit_eq]
    exact Nat.isDigit_of_mem_toDigits (by decide) (by decide) (hrest ▸ List.mem_cons_of_mem _ hc)
  have hvalue : n = decimalValue rest := by
    rw [decimalValue_eq, ← Nat.ofDigitChars_ten_toDigits (n := n), hrest, Nat.ofDigitChars_cons]
    rfl
  have hlt := decimalValue_lt hdigits
  rw [← hvalue] at hlt
  cases rest with
  | nil => exact hn hvalue
  | cons c rest =>
    have hshort := (Nat.length_toDigits_le_iff (by decide) (Nat.succ_pos rest.length)).mpr hlt
    rw [hrest, List.length_cons, List.length_cons] at hshort
    omega

/-! ### Hexadecimal digits -/

theorem hexValue?_hexDigit {n : Nat} (h : n < 16) : hexValue? (hexDigit n) = some n := by
  have hall : ∀ n < 16, hexValue? (hexDigit n) = some n := by decide
  exact hall n h

theorem hexValue?_lt {c : Char} {n : Nat} (h : hexValue? c = some n) : n < 16 := by
  have hbounds : ∀ low high : Char, low ≤ c ∧ c ≤ high → low.toNat ≤ c.toNat ∧
      c.toNat ≤ high.toNat := by
    intro low high hc
    simp only [Char.le_def, UInt32.le_iff_toNat_le] at hc
    exact hc
  unfold hexValue? at h
  split at h
  · next hdigit =>
    have hc := isDigit_iff.mp hdigit
    obtain rfl := Option.some.inj h
    have hzero : '0'.toNat = 48 := rfl
    rw [digitValue]
    omega
  · split at h
    · next hsmall =>
      have hc := hbounds 'a' 'f' hsmall
      obtain rfl := Option.some.inj h
      have ha : 'a'.toNat = 97 := rfl
      have hf : 'f'.toNat = 102 := rfl
      omega
    · split at h
      · next hcapital =>
        have hc := hbounds 'A' 'F' hcapital
        obtain rfl := Option.some.inj h
        have ha : 'A'.toNat = 65 := rfl
        have hf : 'F'.toNat = 70 := rfl
        omega
      · cases h

@[simp] theorem length_hexDigits (width n : Nat) : (hexDigits width n).length = width := by
  induction width generalizing n with
  | zero => rfl
  | succ width ih => rw [hexDigits, List.length_append, ih, List.length_singleton]

end Jobflow.Text
