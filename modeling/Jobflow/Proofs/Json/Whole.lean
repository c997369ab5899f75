import Jobflow.Proofs.Decimal.Whole
import Jobflow.Proofs.Json.Reals

/-!
Whole numbers among the doubles of a text. A whole number is written with a zero behind the point,
so that ten times the number is read and a tenth of it taken then, each rounded to a double. Up to a
bound far beyond the seconds of any calendar nothing is rounded, and the number is read back as it
is; up to 53 binary digits what is read back is at most one away.
-/

namespace Jobflow.Json

open Jobflow.Decimal (Binary64)
open Text (decimalValue)

/-- The greatest whole number for which a digit more is held exactly. -/
def greatestWhole : Nat := 900719925474099

/-- The greatest whole number for which ten times it, and ten times all below it, is a double. -/
def greatestSteady : Nat := 1801439850948198

theorem greatestWhole_le_greatestSteady : greatestWhole ≤ greatestSteady := by decide

section
variable {x : Binary64} {n : Nat}

/-- The literal of a whole number has its digits before the point, and a zero behind it. -/
theorem realLiteral_of_makes (hzero : x.mantissa ≠ 0) (h : Binary64.Makes n x.shortest)
    (hpos : 0 < n) (hn : n < 10 ^ 16) :
    ∃ whole, realLiteral x = ⟨x.negative, whole, ['0'], none⟩ ∧ decimalValue whole = n := by
  obtain ⟨m, k, hshortest, hvalue⟩ := h
  have hnonzero : ¬ x.isZero = true := by simpa [Binary64.isZero] using hzero
  have hdigits : (Nat.toDigits 10 m).length + k ≤ 16 := by
    by_contra hlong
    have hm : 0 < m := Nat.pos_of_ne_zero fun hm => by simp [hm] at hvalue; omega
    have hlead : 10 ^ ((Nat.toDigits 10 m).length - 1) ≤ m :=
      Binary64.pow_le_of_lt_digitCount hm (Nat.sub_lt (List.length_pos_iff.mpr Nat.toDigits_ne_nil)
        one_pos)
    have hlarge : 10 ^ 16 ≤ n := by
      calc 10 ^ 16 ≤ 10 ^ ((Nat.toDigits 10 m).length - 1 + k) :=
            Nat.pow_le_pow_right (by decide) (by omega)
        _ = 10 ^ ((Nat.toDigits 10 m).length - 1) * 10 ^ k := pow_add _ _ _
        _ ≤ m * 10 ^ k := Nat.mul_le_mul_right _ hlead
        _ = n := hvalue
    omega
  refine ⟨Nat.toDigits 10 m ++ List.replicate k '0', ?_, ?_⟩
  · unfold realLiteral
    rw [hshortest]
    dsimp only
    rw [if_neg hnonzero, if_pos ⟨Int.natCast_nonneg k, by omega⟩, Int.toNat_natCast]
  · rw [Text.decimalValue_append, List.length_replicate, Text.decimalValue_toDigits,
      Text.decimalValue_zeros, Nat.add_zero, Nat.mul_comm, hvalue]

/-- A tenth of a double is rounded once. -/
theorem exists_tenth (x : Binary64) (fuel : Nat) :
    ∃ num den : Nat, 0 < den ∧ (num : ℚ) / den = x.magnitude / 10 ∧
      scaleByTen x (-1) (fuel + 1) = .ok ((Binary64.ofFraction x.negative num den).getD x) := by
  obtain ⟨ten, hten, -, hvalue, hsign, hnonzero⟩ :=
    Binary64.ofNat?_spec (n := 10) (by decide) (by decide)
  obtain ⟨num, den, hden, hdiv, hfraction⟩ := Binary64.div_eq x hnonzero
  have hone : Binary64.ofDecimal false 1 ((-1 : Int).natAbs : Int) = some ten := hten
  refine ⟨num, den, hden, by rw [hfraction, hvalue]; rfl, ?_⟩
  rw [scaleByTen_succ, if_pos (by decide), hone]
  dsimp only
  rw [if_neg (by decide), hdiv, hsign, Bool.bne_false]

/-- A tenth of ten times a number is the number, if ten times the number is a double. -/
theorem scaleByTen_ten (hpos : 0 < n) (hn : n ≤ greatestSteady) (fuel : Nat) :
    scaleByTen (Binary64.ofNat (10 * n)) (-1) (fuel + 1) = .ok (Binary64.ofNat n) := by
  unfold greatestSteady at hn
  obtain ⟨hvalue, hsign⟩ := Binary64.ofNat_double_spec (n := 5 * n) (by omega) (by omega)
  rw [← Nat.mul_assoc] at hvalue hsign
  obtain ⟨hnormal, hquotient, hquotientSign, hnonzero⟩ := Binary64.ofNat_spec hpos (by omega)
  obtain ⟨num, den, hden, hfraction, hscale⟩ := exists_tenth (Binary64.ofNat (10 * n)) fuel
  -- the tenth is a double itself, so that nothing is rounded
  have hsame : (num : ℚ) / den = (Binary64.ofNat n).magnitude := by
    rw [hfraction, hvalue, hquotient]
    push_cast
    field_simp
  rw [hscale, hsign, Binary64.ofFraction_of_isNormal hnormal hnonzero hden hsame, Option.getD_some,
    ← hquotientSign]

theorem lt_greatest {q : ℚ} (hq : q < 2 ^ 57) :
    q < (2 ^ 53 - 1 / 2) * 2 ^ Binary64.greatestExponent := by
  have hunit : (2 : ℚ) ^ (5 : ℤ) ≤ 2 ^ Binary64.greatestExponent :=
    zpow_le_zpow_right₀ one_le_two (by decide)
  norm_num at hunit hq
  linarith

/-- The double nearest to a whole number of at most 57 binary digits. -/
theorem ofNat_near {m : Nat} (hpos : 0 < m) (hm : m < 2 ^ 57) :
    (Binary64.ofNat m).negative = false ∧
      (m < 2 ^ 56 → |(Binary64.ofNat m).magnitude - m| ≤ 4) ∧
      |(Binary64.ofNat m).magnitude - m| ≤ 8 := by
  have hone : ((m : ℕ) : ℚ) / (1 : ℕ) = m := by simp
  have hcast : (m : ℚ) < 2 ^ 57 := by exact_mod_cast hm
  obtain ⟨y, hy⟩ := Binary64.exists_ofFraction false one_pos (lt_greatest (hone.trans_lt hcast))
  obtain ⟨hsign, -⟩ := Binary64.magnitude_of_ofFraction hpos.ne' hy
  have hnear : ∀ e : ℤ, 0 ≤ e → (m : ℚ) < 2 ^ (e + 53) → |y.magnitude - m| ≤ 2 ^ e / 2 := by
    intro e he hlt
    have h := Binary64.abs_sub_le_of_ofFraction hpos.ne' one_pos
      (le_trans (by decide) he : Binary64.leastExponent ≤ e) (hone.trans_lt hlt) hy
    rwa [hone] at h
  rw [Binary64.ofNat, Binary64.ofNat?, hy]
  refine ⟨hsign, fun hm' => ?_, (hnear 4 (by decide) (by exact_mod_cast hcast)).trans (by norm_num)⟩
  exact (hnear 3 (by decide) (by exact_mod_cast hm')).trans (by norm_num)

/-- Two roundings lead at most one away. -/
theorem scaleByTen_near (hpos : 0 < n) (hn : n < 2 ^ 53) (fuel : Nat) :
    ∃ y, scaleByTen (Binary64.ofNat (10 * n)) (-1) (fuel + 1) = .ok y ∧ y.negative = false ∧
      |y.magnitude - n| ≤ 1 := by
  obtain ⟨hsign, hclose, hnear⟩ := ofNat_near (m := 10 * n) (by omega) (by omega)
  obtain ⟨num, den, hden, hfraction, hscale⟩ := exists_tenth (Binary64.ofNat (10 * n)) fuel
  generalize Binary64.ofNat (10 * n) = x at *
  have hten : (n : ℚ) + 1 ≤ 2 ^ 53 := by exact_mod_cast hn
  push_cast at hclose hnear
  have hbounds := abs_sub_le_iff.mp hnear
  have hone : (1 : ℚ) ≤ n := by exact_mod_cast hpos
  have hlt : (num : ℚ) / den < 2 ^ ((0 : ℤ) + 53) := by
    rw [hfraction]
    norm_num at hten ⊢
    linarith
  have hnum : num ≠ 0 := by
    rintro rfl
    rw [Nat.cast_zero, zero_div] at hfraction
    linarith
  obtain ⟨y, hy⟩ := Binary64.exists_ofFraction x.negative hden
    (lt_greatest (hlt.trans_le (by norm_num)))
  obtain ⟨hySign, -⟩ := Binary64.magnitude_of_ofFraction hnum hy
  have hhalf := abs_sub_le_iff.mp
    (Binary64.abs_sub_le_of_ofFraction hnum hden (by decide) hlt hy)
  rw [zpow_zero, hfraction] at hhalf
  refine ⟨y, by rw [hscale, hy, Option.getD_some], hySign.trans hsign, ?_⟩
  rcases lt_or_ge (10 * n) (2 ^ 56) with hsmall | hlarge
  · have hfour := abs_sub_le_iff.mp (hclose hsmall)
    exact abs_sub_le_iff.mpr ⟨by linarith, by linarith⟩
  · -- here the second rounding is to a whole number, so that one and a third away is one
    have hwhole : (2 : ℚ) ^ 52 ≤ num / den := by
      have hcast : (2 : ℚ) ^ 56 ≤ 10 * n := by exact_mod_cast hlarge
      rw [hfraction]
      norm_num at hcast ⊢
      linarith
    obtain ⟨k, hk⟩ := Binary64.exists_nat_of_ofFraction hnum hden hwhole hy
    rw [hk] at hhalf ⊢
    have hup : k < n + 2 := by
      have : (k : ℚ) < n + 2 := by linarith
      exact_mod_cast this
    have hdown : n < k + 2 := by
      have : (n : ℚ) < k + 2 := by linarith
      exact_mod_cast this
    have hup' : (k : ℚ) ≤ n + 1 := by exact_mod_cast Nat.le_of_lt_succ hup
    have hdown' : (n : ℚ) ≤ k + 1 := by exact_mod_cast Nat.le_of_lt_succ hdown
    exact abs_sub_le_iff.mpr ⟨by linarith, by linarith⟩

/-- What is read from the text of a whole number is a tenth of ten times the number. -/
theorem reread_of_tenth {y : Binary64} (hpos : 0 < n) (hn : n < 2 ^ 53)
    (hy : scaleByTen (Binary64.ofNat (10 * n)) (-1) 8 = .ok y) (negative : Bool) :
    reread { Binary64.ofNat n with negative := negative } = { y with negative := negative } := by
  obtain ⟨hnormal, hvalue, -, hnonzero⟩ := Binary64.ofNat_spec hpos hn
  generalize hx : ({ Binary64.ofNat n with negative := negative } : Binary64) = x
  have hxNormal : x.IsNormal := by
    subst hx
    exact ⟨hnormal.withSign negative, hnormal.least, hnormal.digits⟩
  have hxValue : x.magnitude = n := by
    subst hx
    exact hvalue
  have hxNonzero : x.mantissa ≠ 0 := by
    subst hx
    exact hnonzero
  have hmakes := Binary64.makes_shortest hxNormal hxNonzero hxValue hpos hn
  obtain ⟨whole, hliteral, hwhole⟩ := realLiteral_of_makes hxNonzero hmakes hpos (by omega)
  have hmax : 10 * n ≤ Text.maxU64 := le_trans (by omega : 10 * n ≤ 10 * 2 ^ 53) (by decide)
  have htake : takeDigits 0 0 whole = (n, whole.length, []) := by
    rw [takeDigits_of_le (by omega), hwhole]
  -- the zero behind the point is read as one more digit, and divided off again
  have hzeroDigit : takeDigits n 0 ['0'] = (10 * n, 1, []) := by
    have hdigit : Text.digitValue '0' = 0 := by decide
    simp [takeDigits, hdigit, not_lt.mpr hmax]
  refine (reads_of_number ?_).2
  rw [hliteral, Literal.number]
  dsimp only
  rw [if_neg (by simp), Literal.real]
  dsimp only
  rw [htake]
  dsimp only
  rw [hzeroDigit]
  dsimp only [List.length_nil]
  have hpower : ((0 : Nat) : Int) - (1 : Nat) = -1 := rfl
  rw [hpower, hy, ← hx]
  rfl

/-- A whole number is read back from its text as it is. -/
theorem reread_ofNat (hn : n ≤ greatestSteady) (negative : Bool) (hzero : negative = true → 0 < n) :
    reread { Binary64.ofNat n with negative := negative } =
      { Binary64.ofNat n with negative := negative } := by
  rcases Nat.eq_zero_or_pos n with rfl | hpos
  · have hplus : negative = false := by simpa using hzero
    subst hplus
    decide +kernel
  · have hlarge : greatestSteady < 2 ^ 53 := by decide
    exact reread_of_tenth hpos (hn.trans_lt hlarge) (scaleByTen_ten hpos hn 7) negative

/-- A larger one is read back as its neighbour at most. -/
theorem reread_near (hn : n < 2 ^ 53) :
    (reread (Binary64.ofNat n)).negative = false ∧
      |(reread (Binary64.ofNat n)).magnitude - n| ≤ 1 := by
  rcases Nat.eq_zero_or_pos n with rfl | hpos
  · have hzero : reread (Binary64.ofNat 0) = Binary64.zero := by decide +kernel
    rw [hzero]
    exact ⟨rfl, by simp [Binary64.magnitude, Binary64.zero]⟩
  · obtain ⟨y, hy, hsign, hnear⟩ := scaleByTen_near hpos hn 7
    rw [← Binary64.ofNat_unsigned, reread_of_tenth hpos hn hy false]
    exact ⟨rfl, hnear⟩

theorem reread_natural (hn : n ≤ greatestSteady) :
    reread (Binary64.ofNat n) = Binary64.ofNat n := by
  rw [← Binary64.ofNat_unsigned]
  exact reread_ofNat hn false nofun

theorem reread_ofInt {k : Int} (hk : k.natAbs ≤ greatestWhole) :
    reread (Binary64.ofInt k) = Binary64.ofInt k :=
  reread_ofNat (hk.trans greatestWhole_le_greatestSteady) _ fun hneg => by
    have : k < 0 := by simpa using hneg
    omega

end

end Jobflow.Json
