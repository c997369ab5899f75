import Jobflow.Decimal.Binary64
import Mathlib.Algebra.Order.Field.Power
import Mathlib.Data.Rat.Cast.Order
import Mathlib.Tactic.FieldSimp
import Mathlib.Tactic.Linarith
import Mathlib.Tactic.NormNum
import Mathlib.Tactic.Positivity
import Mathlib.Tactic.Ring

/-!
Doubles as rationals. A double that is the nearest to a fraction is off by at most half a unit
of its last binary place, and a fraction that is not too large has a nearest double.
-/

namespace Jobflow.Decimal.Binary64

/-- A number that a double can hold, its least exponent apart. -/
structure IsFinite (x : Binary64) : Prop where
  mantissa : x.mantissa < 2 ^ 53
  exponent : x.exponent ≤ greatestExponent

/-- The magnitude as a rational. -/
def magnitude (x : Binary64) : ℚ := x.mantissa * 2 ^ x.exponent

theorem isFinite_zero : zero.IsFinite := ⟨by decide, by decide⟩

theorem IsFinite.withSign {x : Binary64} (h : x.IsFinite) (negative : Bool) :
    ({ x with negative := negative } : Binary64).IsFinite := ⟨h.mantissa, h.exponent⟩

theorem magnitude_nonneg (x : Binary64) : 0 ≤ x.magnitude := by
  unfold magnitude
  positivity

theorem fraction_spec (x : Binary64) :
    0 < x.fraction.2 ∧ (x.fraction.1 : ℚ) / x.fraction.2 = x.magnitude := by
  unfold fraction magnitude
  split
  · next h =>
    obtain ⟨k, hk⟩ := Int.eq_ofNat_of_zero_le h
    simp [hk]
  · next h =>
    obtain ⟨k, hk⟩ : ∃ k : ℕ, x.exponent = -k := ⟨(-x.exponent).toNat, by omega⟩
    simp [hk, div_eq_mul_inv]

/-! ### Rounding to whole numbers -/

theorem nearestEven_bounds (num : ℕ) {den : ℕ} (hden : 0 < den) :
    (nearestEven num den : ℚ) ≤ num / den + 1 / 2 ∧
      (num : ℚ) / den ≤ nearestEven num den + 1 / 2 := by
  have hdiv := Nat.div_add_mod num den
  have hmod := Nat.mod_lt num hden
  have hnat : 2 * (den * nearestEven num den) ≤ 2 * num + den ∧
      2 * num ≤ 2 * (den * nearestEven num den) + den := by
    unfold nearestEven
    dsimp only
    split
    · rw [Nat.mul_add]
      omega
    · omega
  have hpos : (0 : ℚ) < den := by exact_mod_cast hden
  obtain ⟨hup, hdown⟩ := hnat
  have hup' : 2 * ((den : ℚ) * nearestEven num den) ≤ 2 * num + den := by exact_mod_cast hup
  have hdown' : 2 * (num : ℚ) ≤ 2 * (den * nearestEven num den) + den := by exact_mod_cast hdown
  constructor
  · rw [div_add_div _ _ hpos.ne' two_ne_zero, le_div_iff₀ (by positivity)]
    linarith
  · rw [div_le_iff₀ hpos]
    linarith

theorem nearestEven_le {num den : ℕ} (hden : 0 < den) {k : ℕ} (h : num < k * den) :
    nearestEven num den ≤ k := by
  have hdiv := Nat.div_add_mod num den
  have hlt : num / den < k := (Nat.div_lt_iff_lt_mul hden).mpr h
  unfold nearestEven
  dsimp only
  split <;> omega

/-! ### The exponent -/

section
variable {num den : ℕ}

theorem scaled_spec (num : ℕ) (hden : 0 < den) (e : ℤ) :
    0 < (scaled num den e).2 ∧
      ((scaled num den e).1 : ℚ) / (scaled num den e).2 = num / den / 2 ^ e := by
  unfold scaled
  split
  · next h =>
    obtain ⟨k, rfl⟩ := Int.eq_ofNat_of_zero_le h
    simp [hden, div_div]
  · next h =>
    obtain ⟨k, rfl⟩ : ∃ k : ℕ, e = -k := ⟨(-e).toNat, by omega⟩
    simp only [Int.toNat_natCast, neg_neg, Nat.pow_eq, Nat.cast_mul, Nat.cast_pow, Nat.cast_ofNat,
      zpow_neg, zpow_natCast, hden, true_and]
    rw [div_inv_eq_mul, mul_div_right_comm]

/-- Where the exponent is read off the lengths of numerator and denominator, the fraction has 52
or 53 binary digits before the point. -/
theorem guess_bounds (hnum : num ≠ 0) (hden : 0 < den) :
    (2 : ℚ) ^ ((num.log2 : ℤ) - den.log2 - 1) < num / den ∧
      (num : ℚ) / den < 2 ^ ((num.log2 : ℤ) - den.log2 + 1) := by
  have hn : ((2 ^ num.log2 : ℕ) : ℚ) ≤ num := by exact_mod_cast Nat.log2_self_le hnum
  have hn' : (num : ℚ) < ((2 ^ (num.log2 + 1) : ℕ) : ℚ) := by exact_mod_cast Nat.lt_log2_self
  have hd : ((2 ^ den.log2 : ℕ) : ℚ) ≤ den := by exact_mod_cast Nat.log2_self_le hden.ne'
  have hd' : (den : ℚ) < ((2 ^ (den.log2 + 1) : ℕ) : ℚ) := by exact_mod_cast Nat.lt_log2_self
  push_cast at hn hn' hd hd'
  have hpos : (0 : ℚ) < den := by exact_mod_cast hden
  have htwo : (2 : ℚ) ≠ 0 := two_ne_zero
  constructor
  · rw [lt_div_iff₀ hpos, zpow_sub₀ htwo, zpow_sub₀ htwo, zpow_natCast, zpow_natCast, zpow_one]
    calc (2 : ℚ) ^ num.log2 / 2 ^ den.log2 / 2 * den
        < 2 ^ num.log2 / 2 ^ den.log2 / 2 * 2 ^ (den.log2 + 1) := by gcongr
      _ = 2 ^ num.log2 := by field_simp; ring
      _ ≤ num := hn
  · rw [div_lt_iff₀ hpos, zpow_add₀ htwo, zpow_sub₀ htwo, zpow_natCast, zpow_natCast, zpow_one]
    calc (num : ℚ) < 2 ^ (num.log2 + 1) := hn'
      _ = 2 ^ num.log2 / 2 ^ den.log2 * 2 * 2 ^ den.log2 := by field_simp; ring
      _ ≤ 2 ^ num.log2 / 2 ^ den.log2 * 2 * den := by gcongr

theorem exists_exponent (hnum : num ≠ 0) (hden : 0 < den) :
    ∃ e, exponentOf num den = max leastExponent e ∧ (2 : ℚ) ^ (e + 52) ≤ num / den ∧
      (num : ℚ) / den < 2 ^ (e + 53) := by
  obtain ⟨hlow, hhigh⟩ := guess_bounds hnum hden
  let guess : ℤ := (num.log2 : ℤ) - den.log2 - 52
  obtain ⟨hd, hscaled⟩ := scaled_spec num hden guess
  have hpow : (0 : ℚ) < 2 ^ guess := by positivity
  have hdigits : (scaled num den guess).1 / (scaled num den guess).2 < 2 ^ 52 ↔
      (num : ℚ) / den < 2 ^ (guess + 52) := by
    have hpos : (0 : ℚ) < (scaled num den guess).2 := by exact_mod_cast hd
    have hcast : ((scaled num den guess).1 : ℚ) < 2 ^ 52 * (scaled num den guess).2 ↔
        (scaled num den guess).1 < 2 ^ 52 * (scaled num den guess).2 := by exact_mod_cast Iff.rfl
    rw [Nat.div_lt_iff_lt_mul hd, ← hcast, ← div_lt_iff₀ hpos, hscaled, div_lt_iff₀ hpow,
      zpow_add₀ two_ne_zero, mul_comm]
    rfl
  have hguess : exponentOf num den = max leastExponent
      (if (scaled num den guess).1 / (scaled num den guess).2 < 2 ^ 52 then guess - 1 else guess) :=
  rfl
  rw [hguess]
  split
  · next hshort =>
    refine ⟨guess - 1, rfl, ?_, ?_⟩
    · rw [show guess - 1 + 52 = (num.log2 : ℤ) - den.log2 - 1 by simp only [guess]; omega]
      exact hlow.le
    · rw [show guess - 1 + 53 = guess + 52 by omega]
      exact hdigits.mp hshort
  · next hlong =>
    refine ⟨guess, rfl, not_lt.mp (mt hdigits.mpr hlong), ?_⟩
    rw [show guess + 53 = (num.log2 : ℤ) - den.log2 + 1 by simp only [guess]; omega]
    exact hhigh

/-- At its exponent a fraction has at most 53 binary digits before the point, and exactly so many
unless the exponent is least. -/
theorem exponentOf_spec (hnum : num ≠ 0) (hden : 0 < den) :
    (num : ℚ) / den < 2 ^ (exponentOf num den + 53) ∧
      (leastExponent < exponentOf num den → (2 : ℚ) ^ (exponentOf num den + 52) ≤ num / den) := by
  obtain ⟨e, he, hlow, hhigh⟩ := exists_exponent hnum hden
  rw [he]
  constructor
  · exact hhigh.trans_le (zpow_le_zpow_right₀ one_le_two (by omega))
  · intro hleast
    rwa [show max leastExponent e = e by omega]

/-! ### The nearest double -/

theorem ofFraction_zero (negative : Bool) (den : ℕ) :
    ofFraction negative 0 den = some ⟨negative, 0, leastExponent⟩ := rfl

/-- The rounded digits of a fraction at its exponent. -/
def digitsOf (num den : ℕ) : ℕ :=
  nearestEven (scaled num den (exponentOf num den)).1 (scaled num den (exponentOf num den)).2

theorem ofFraction_eq (negative : Bool) (hnum : num ≠ 0) :
    ofFraction negative num den =
      if digitsOf num den = 2 ^ 53 then
        if greatestExponent < exponentOf num den + 1 then none
        else some ⟨negative, 2 ^ 52, exponentOf num den + 1⟩
      else
        if greatestExponent < exponentOf num den then none
        else some ⟨negative, digitsOf num den, exponentOf num den⟩ := by
  unfold ofFraction roundMagnitude digitsOf
  rw [if_neg hnum]
  by_cases hdigits : nearestEven (scaled num den (exponentOf num den)).1
      (scaled num den (exponentOf num den)).2 = 2 ^ 53
  · simp only [hdigits, Nat.pow_eq, if_true]
    split <;> rfl
  · simp only [hdigits, Nat.pow_eq, if_false]
    split <;> rfl

theorem digitsOf_bounds (num : ℕ) (hden : 0 < den) :
    (digitsOf num den : ℚ) ≤ num / den / 2 ^ exponentOf num den + 1 / 2 ∧
      (num : ℚ) / den / 2 ^ exponentOf num den ≤ digitsOf num den + 1 / 2 := by
  obtain ⟨hd, hscaled⟩ := scaled_spec num hden (exponentOf num den)
  rw [← hscaled]
  exact nearestEven_bounds _ hd

theorem digitsOf_le (hnum : num ≠ 0) (hden : 0 < den) : digitsOf num den ≤ 2 ^ 53 := by
  obtain ⟨hd, hscaled⟩ := scaled_spec num hden (exponentOf num den)
  obtain ⟨hlt, -⟩ := exponentOf_spec hnum hden
  apply nearestEven_le hd
  have hpos : (0 : ℚ) < (scaled num den (exponentOf num den)).2 := by exact_mod_cast hd
  have hcast : ((scaled num den (exponentOf num den)).1 : ℚ) <
      2 ^ 53 * (scaled num den (exponentOf num den)).2 := by
    rw [← div_lt_iff₀ hpos, hscaled, div_lt_iff₀ (by positivity)]
    rwa [zpow_add₀ two_ne_zero, mul_comm] at hlt
  exact_mod_cast hcast

theorem isFinite_of_ofFraction {negative : Bool} {y : Binary64} (hden : 0 < den)
    (h : ofFraction negative num den = some y) : y.IsFinite := by
  by_cases hnum : num = 0
  · subst hnum
    rw [ofFraction_zero] at h
    obtain rfl := Option.some.inj h
    exact isFinite_zero.withSign negative
  · have hle := digitsOf_le hnum hden
    rw [ofFraction_eq negative hnum] at h
    split at h
    · split at h
      · cases h
      · next hexponent =>
        obtain rfl := Option.some.inj h
        exact ⟨Nat.pow_lt_pow_right (by decide) (by decide), not_lt.mp hexponent⟩
    · next hdigits =>
      split at h
      · cases h
      · next hexponent =>
        obtain rfl := Option.some.inj h
        exact ⟨lt_of_le_of_ne hle hdigits, not_lt.mp hexponent⟩

/-- A fraction is at most half a unit in the last place above its nearest double. -/
theorem le_of_ofFraction {negative : Bool} {y : Binary64} (hden : 0 < den)
    (h : ofFraction negative num den = some y) :
    (num : ℚ) / den ≤ (y.mantissa + 1 / 2) * 2 ^ y.exponent := by
  by_cases hnum : num = 0
  · subst hnum
    rw [Nat.cast_zero, zero_div]
    positivity
  · obtain ⟨-, hup⟩ := digitsOf_bounds num hden
    rw [div_le_iff₀ (by positivity)] at hup
    rw [ofFraction_eq negative hnum] at h
    split at h
    · next hdigits =>
      split at h
      · cases h
      · obtain rfl := Option.some.inj h
        rw [hdigits] at hup
        refine hup.trans ?_
        dsimp only
        rw [zpow_add_one₀ two_ne_zero]
        have hpow : (0 : ℚ) < 2 ^ exponentOf num den := by positivity
        push_cast
        nlinarith
    · split at h
      · cases h
      · obtain rfl := Option.some.inj h
        exact hup

/-- The nearest double of a fraction has its rounded digits at its exponent. -/
theorem magnitude_of_ofFraction {negative : Bool} {y : Binary64} (hnum : num ≠ 0)
    (h : ofFraction negative num den = some y) :
    y.negative = negative ∧ y.magnitude = digitsOf num den * 2 ^ exponentOf num den := by
  rw [ofFraction_eq negative hnum] at h
  split at h
  · next hfull =>
    split at h
    · cases h
    · obtain rfl := Option.some.inj h
      refine ⟨rfl, ?_⟩
      rw [magnitude, hfull, zpow_add_one₀ two_ne_zero]
      push_cast
      ring
  · split at h
    · cases h
    · obtain rfl := Option.some.inj h
      exact ⟨rfl, rfl⟩

/-- The nearest double of a fraction that is not below one is not much above it. -/
theorem magnitude_le_of_ofFraction {negative : Bool} {y : Binary64} (hden : 0 < den)
    (hone : den ≤ num) (h : ofFraction negative num den = some y) :
    y.magnitude ≤ num / den * (1 + 1 / 2 ^ 53) := by
  have hnum : num ≠ 0 := by omega
  obtain ⟨hlt, hle⟩ := exponentOf_spec hnum hden
  have hpos : (0 : ℚ) < den := by exact_mod_cast hden
  have hbig : (1 : ℚ) ≤ num / den := by
    rw [le_div_iff₀ hpos, one_mul]
    exact_mod_cast hone
  have hexponent : leastExponent < exponentOf num den := by
    by_contra hsmall
    have hbelow : (2 : ℚ) ^ (exponentOf num den + 53) ≤ 1 :=
      zpow_le_one_of_nonpos₀ one_le_two (by simp only [leastExponent] at hsmall; omega)
    linarith
  have hhalf : (2 : ℚ) ^ exponentOf num den * (1 / 2) ≤ num / den * (1 / 2 ^ 53) := by
    have hdigits := hle hexponent
    rw [zpow_add₀ two_ne_zero] at hdigits
    calc (2 : ℚ) ^ exponentOf num den * (1 / 2)
        = 2 ^ exponentOf num den * 2 ^ (52 : ℤ) * (1 / 2 ^ 53) := by norm_num; ring
      _ ≤ num / den * (1 / 2 ^ 53) := by gcongr
  obtain ⟨hdown, -⟩ := digitsOf_bounds num hden
  obtain ⟨-, hmagnitude⟩ := magnitude_of_ofFraction hnum h
  have hpow : (0 : ℚ) < 2 ^ exponentOf num den := by positivity
  calc y.magnitude = digitsOf num den * 2 ^ exponentOf num den := hmagnitude
    _ ≤ (num / den / 2 ^ exponentOf num den + 1 / 2) * 2 ^ exponentOf num den := by gcongr
    _ = num / den + 2 ^ exponentOf num den * (1 / 2) := by field_simp
    _ ≤ num / den + num / den * (1 / 2 ^ 53) := by gcongr
    _ = num / den * (1 + 1 / 2 ^ 53) := by ring

/-- A fraction that is less than half a unit above the greatest double has a nearest double. -/
theorem exists_ofFraction (negative : Bool) (hden : 0 < den)
    (h : (num : ℚ) / den < (2 ^ 53 - 1 / 2) * 2 ^ greatestExponent) :
    ∃ y, ofFraction negative num den = some y := by
  by_cases hnum : num = 0
  · subst hnum
    exact ⟨_, ofFraction_zero negative den⟩
  · obtain ⟨-, hle⟩ := exponentOf_spec hnum hden
    have hunit : (0 : ℚ) < 2 ^ greatestExponent := by positivity
    have hexponent : exponentOf num den ≤ greatestExponent := by
      by_contra hbig
      have hdigits := hle (lt_trans (by decide) (not_le.mp hbig))
      have hpow : (2 : ℚ) ^ greatestExponent * 2 ^ (53 : ℤ) ≤ 2 ^ (exponentOf num den + 52) := by
        rw [← zpow_add₀ two_ne_zero]
        exact zpow_le_zpow_right₀ one_le_two (by omega)
      norm_num at hpow h
      linarith
    rw [ofFraction_eq negative hnum]
    split
    · next hdigits =>
      -- at the greatest exponent the digits do not round up to another one
      rcases lt_or_eq_of_le hexponent with hlt | heq
      · rw [if_neg (by omega)]
        exact ⟨_, rfl⟩
      · obtain ⟨hdown, -⟩ := digitsOf_bounds num hden
        rw [hdigits, heq, ← sub_le_iff_le_add, le_div_iff₀ hunit] at hdown
        push_cast at hdown
        linarith
    · rw [if_neg (not_lt.mpr hexponent)]
      exact ⟨_, rfl⟩

end

/-! ### Whole numbers and products -/

theorem isFinite_ofNat (n : ℕ) : (ofNat n).IsFinite := by
  unfold ofNat ofNat?
  cases hfound : ofFraction false n 1 with
  | none => exact isFinite_zero
  | some y => exact isFinite_of_ofFraction one_pos hfound

theorem isFinite_ofInt (n : ℤ) : (ofInt n).IsFinite := (isFinite_ofNat _).withSign _

theorem magnitude_ofNat_le (n : ℕ) : (ofNat n).magnitude ≤ n * (1 + 1 / 2 ^ 53) := by
  have hzero : (0 : ℚ) ≤ n * (1 + 1 / 2 ^ 53) := by positivity
  have hnothing : ∀ negative e, (Binary64.mk negative 0 e).magnitude = 0 := by
    intro negative e
    rw [magnitude, Nat.cast_zero, zero_mul]
  unfold ofNat ofNat?
  cases hfound : ofFraction false n 1 with
  | none => exact (hnothing _ _).trans_le hzero
  | some y =>
    rcases Nat.eq_zero_or_pos n with rfl | hpos
    · rw [ofFraction_zero] at hfound
      obtain rfl := Option.some.inj hfound
      exact (hnothing _ _).trans_le hzero
    · have hle := magnitude_le_of_ofFraction one_pos hpos hfound
      rwa [Nat.cast_one, div_one] at hle

theorem mul_eq (x y : Binary64) :
    ∃ num den, 0 < den ∧ x.mul y = ofFraction (x.negative != y.negative) num den ∧
      (num : ℚ) / den = x.magnitude * y.magnitude := by
  obtain ⟨hx, hxval⟩ := fraction_spec x
  obtain ⟨hy, hyval⟩ := fraction_spec y
  refine ⟨x.fraction.1 * y.fraction.1, x.fraction.2 * y.fraction.2, Nat.mul_pos hx hy, rfl, ?_⟩
  rw [← hxval, ← hyval, Nat.cast_mul, Nat.cast_mul, mul_div_mul_comm]

theorem div_eq (x : Binary64) {y : Binary64} (hy : y.mantissa ≠ 0) :
    ∃ num den, 0 < den ∧ x.div y = ofFraction (x.negative != y.negative) num den ∧
      (num : ℚ) / den = x.magnitude / y.magnitude := by
  obtain ⟨hx, hxval⟩ := fraction_spec x
  obtain ⟨hden, hyval⟩ := fraction_spec y
  have hnum : 0 < y.fraction.1 := by
    unfold fraction
    split
    · exact Nat.mul_pos (Nat.pos_of_ne_zero hy) (Nat.pow_pos (by decide))
    · exact Nat.pos_of_ne_zero hy
  refine ⟨x.fraction.1 * y.fraction.2, x.fraction.2 * y.fraction.1, Nat.mul_pos hx hnum, rfl, ?_⟩
  rw [← hxval, ← hyval, Nat.cast_mul, Nat.cast_mul, div_div_div_eq]

end Jobflow.Decimal.Binary64
