import Jobflow.Decimal.Shortest
import Jobflow.Proofs.Decimal.Rounding
import Mathlib.Data.Nat.Cast.Order.Field

/-!
The decimal that is written for a double is at most half a unit in the last binary place above
it, whether it is the shortest that reads back or the exact one.
-/

namespace Jobflow.Decimal

/-- A decimal as a rational. -/
def valueOf (d : Decimal) : ℚ := d.digits * 10 ^ d.power

namespace Binary64

variable {x : Binary64} {d : Decimal}

theorem ofDecimal_eq (negative : Bool) (digits : ℕ) (power : ℤ) :
    ∃ num den, 0 < den ∧ ofDecimal negative digits power = ofFraction negative num den ∧
      (num : ℚ) / den = valueOf ⟨digits, power⟩ ∧ (digits = 0 → num = 0) := by
  unfold ofDecimal valueOf
  split
  · next h =>
    obtain ⟨k, rfl⟩ := Int.eq_ofNat_of_zero_le h
    refine ⟨_, 1, one_pos, rfl, by simp, fun hzero => by simp [hzero]⟩
  · next h =>
    obtain ⟨k, rfl⟩ : ∃ k : ℕ, power = -k := ⟨(-power).toNat, by omega⟩
    refine ⟨digits, 10 ^ k, by positivity, by simp, by simp [div_eq_mul_inv], id⟩

/-- The decimal is not zero, and not much above the double. -/
structure Near (x : Binary64) (d : Decimal) : Prop where
  digits : d.digits ≠ 0
  value : valueOf d ≤ (x.mantissa + 1 / 2) * 2 ^ x.exponent

theorem near_of_readsBack (hx : x.mantissa ≠ 0) (h : x.readsBack d = true) : x.Near d := by
  obtain ⟨num, den, hden, hofDecimal, hvalue, hzero⟩ := ofDecimal_eq false d.digits d.power
  have hread : ofFraction false num den = some { x with negative := false } := by
    rw [← hofDecimal]
    exact beq_iff_eq.mp h
  constructor
  · intro hdigits
    rw [hzero hdigits, ofFraction_zero] at hread
    obtain ⟨-, hmantissa, -⟩ := Binary64.mk.inj (Option.some.inj hread)
    exact hx hmantissa.symm
  · have hle := le_of_ofFraction hden hread
    rwa [hvalue] at hle

theorem near_of_onGrid (hx : x.mantissa ≠ 0) {power : ℤ} (h : x.onGrid power = some d) :
    x.Near d := by
  unfold onGrid at h
  dsimp only at h
  generalize (if 0 ≤ power then (x.fraction.1, x.fraction.2 * Nat.pow 10 power.toNat)
    else (x.fraction.1 * Nat.pow 10 (-power).toNat, x.fraction.2)) = grid at h
  split at h
  · next hbelow habove =>
    split at h
    · obtain rfl := Option.some.inj h
      exact near_of_readsBack hx hbelow
    · obtain rfl := Option.some.inj h
      exact near_of_readsBack hx habove
  · next hbelow _ =>
    obtain rfl := Option.some.inj h
    exact near_of_readsBack hx hbelow
  · next _ habove =>
    obtain rfl := Option.some.inj h
    exact near_of_readsBack hx habove
  · cases h

theorem exists_fraction (hx : x.mantissa ≠ 0) :
    ∃ num k, num ≠ 0 ∧ x.fraction = (num, 2 ^ k) := by
  unfold fraction
  split
  · exact ⟨_, 0, by simp [hx], rfl⟩
  · exact ⟨_, _, hx, rfl⟩

/-- The digits that are taken where no grid has a hit are those of the double itself. -/
theorem near_exact (hx : x.mantissa ≠ 0) :
    x.Near ⟨x.fraction.1 * Nat.pow 10 x.fraction.2.log2 / x.fraction.2,
      -(x.fraction.2.log2 : ℤ)⟩ := by
  obtain ⟨-, hmagnitude⟩ := fraction_spec x
  obtain ⟨num, k, hnum, hfraction⟩ := exists_fraction hx
  rw [hfraction] at hmagnitude ⊢
  dsimp only at hmagnitude ⊢
  rw [Nat.log2_two_pow]
  constructor
  · have hpow : 2 ^ k ≤ num * Nat.pow 10 k :=
      (Nat.pow_le_pow_left (by decide) k).trans (Nat.le_mul_of_pos_left _ (Nat.pos_of_ne_zero hnum))
    exact (Nat.div_pos hpow (by positivity)).ne'
  · have hdiv : ((num * Nat.pow 10 k / 2 ^ k : ℕ) : ℚ) ≤ (num * Nat.pow 10 k : ℕ) / (2 ^ k : ℕ) :=
      Nat.cast_div_le
    have hhalf : (0 : ℚ) ≤ 1 / 2 * 2 ^ x.exponent := by positivity
    calc valueOf ⟨num * Nat.pow 10 k / 2 ^ k, -(k : ℤ)⟩
        = (num * Nat.pow 10 k / 2 ^ k : ℕ) * 10 ^ (-(k : ℤ)) := rfl
      _ ≤ ((num * Nat.pow 10 k : ℕ) : ℚ) / (2 ^ k : ℕ) * 10 ^ (-(k : ℤ)) := by gcongr
      _ = num / (2 ^ k : ℕ) := by
        simp only [Nat.pow_eq, Nat.cast_mul, Nat.cast_pow, Nat.cast_ofNat, zpow_neg, zpow_natCast]
        field_simp
      _ = x.mantissa * 2 ^ x.exponent := hmagnitude
      _ ≤ (x.mantissa + 1 / 2) * 2 ^ x.exponent := by rw [add_mul]; linarith

theorem near_firstHit (hx : x.mantissa ≠ 0) (position : ℤ) (fuel count : ℕ) :
    x.Near (x.firstHit position fuel count) := by
  induction fuel generalizing count with
  | zero => exact near_exact hx
  | succ fuel ih =>
    unfold firstHit
    split
    · next hhit => exact near_of_onGrid hx hhit
    · exact ih (count + 1)

theorem Near.stripZeros (h : x.Near d) (fuel : ℕ) : x.Near (Binary64.stripZeros fuel d) := by
  induction fuel generalizing d with
  | zero => exact h
  | succ fuel ih =>
    unfold Binary64.stripZeros
    split
    · next hzero =>
      obtain ⟨hne, hmod⟩ := hzero
      obtain ⟨digits, hdigits⟩ := Nat.dvd_of_mod_eq_zero hmod
      have hstripped : valueOf ⟨d.digits / 10, d.power + 1⟩ = valueOf d := by
        rw [valueOf, valueOf, hdigits, Nat.mul_div_cancel_left _ (by decide),
          zpow_add_one₀ (by norm_num)]
        push_cast
        ring
      refine ih ⟨?_, hstripped.trans_le h.value⟩
      dsimp only
      omega
    · exact h

theorem near_shortest (hx : x.mantissa ≠ 0) : x.Near x.shortest := by
  have hzero : x.isZero = false := by simpa [isZero] using hx
  unfold shortest
  rw [hzero]
  exact (near_firstHit hx _ _ _).stripZeros _

end Binary64

end Jobflow.Decimal
