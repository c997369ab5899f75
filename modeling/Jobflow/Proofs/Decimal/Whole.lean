import Jobflow.Proofs.Decimal.Shortest

/-!
Whole numbers that a double holds exactly. A fraction that is the value of a double is rounded to
that double, and the shortest decimal of a whole number below `2 ^ 50` is the number itself.
-/

namespace Jobflow.Decimal.Binary64

variable {x y : Binary64} {num den n : ℕ}

/-! ### Fractions that are not rounded -/

/-- A number as it is made by rounding: its mantissa has 53 digits, unless the exponent is least. -/
structure IsNormal (x : Binary64) : Prop extends IsFinite x where
  least : leastExponent ≤ x.exponent
  digits : leastExponent < x.exponent → 2 ^ 52 ≤ x.mantissa

theorem leastExponent_le_exponentOf (num den : ℕ) : leastExponent ≤ exponentOf num den := by
  unfold exponentOf
  dsimp only
  exact le_max_left _ _

theorem lt_of_two_zpow_lt {a b : ℤ} (h : (2 : ℚ) ^ a < 2 ^ b) : a < b :=
  (zpow_lt_zpow_iff_right₀ one_lt_two).mp h

/-- The exponent of a fraction is that of the double with the same value. -/
theorem exponentOf_of_isNormal (hy : y.IsNormal) (hnum : num ≠ 0) (hden : 0 < den)
    (hvalue : (num : ℚ) / den = y.magnitude) : exponentOf num den = y.exponent := by
  obtain ⟨hlt, hle⟩ := exponentOf_spec hnum hden
  have hleast := leastExponent_le_exponentOf num den
  rw [hvalue, magnitude] at hlt hle
  have hpow : (0 : ℚ) < 2 ^ y.exponent := by positivity
  rcases lt_trichotomy (exponentOf num den) y.exponent with hbelow | heq | habove
  · have hdigits : (2 : ℚ) ^ 52 ≤ y.mantissa := by
      exact_mod_cast hy.digits (lt_of_le_of_lt hleast hbelow)
    have hfull : (2 : ℚ) ^ (y.exponent + 52) ≤ y.mantissa * 2 ^ y.exponent := by
      rw [zpow_add₀ two_ne_zero, mul_comm]
      gcongr
      exact_mod_cast hdigits
    have := lt_of_two_zpow_lt (hfull.trans_lt hlt)
    omega
  · exact heq
  · have hmantissa : (y.mantissa : ℚ) < 2 ^ 53 := by exact_mod_cast hy.mantissa
    have hshort : (y.mantissa : ℚ) * 2 ^ y.exponent < 2 ^ (y.exponent + 53) := by
      rw [zpow_add₀ two_ne_zero, mul_comm]
      gcongr
      exact_mod_cast hmantissa
    have := lt_of_two_zpow_lt ((hle (lt_of_le_of_lt hy.least habove)).trans_lt hshort)
    omega

/-- What is rounded to a whole number is that number if it is one. -/
theorem eq_of_halves {m d : ℕ} (hup : (d : ℚ) ≤ m + 1 / 2) (hdown : (m : ℚ) ≤ d + 1 / 2) :
    d = m := by
  have hup' : 2 * d ≤ 2 * m + 1 := by
    have : (2 : ℚ) * d ≤ 2 * m + 1 := by linarith
    exact_mod_cast this
  have hdown' : 2 * m ≤ 2 * d + 1 := by
    have : (2 : ℚ) * m ≤ 2 * d + 1 := by linarith
    exact_mod_cast this
  omega

/-- A fraction that is the value of a double is rounded to that double. -/
theorem ofFraction_of_isNormal (hy : y.IsNormal) (hzero : y.mantissa ≠ 0) (hden : 0 < den)
    (hvalue : (num : ℚ) / den = y.magnitude) (negative : Bool) :
    ofFraction negative num den = some { y with negative := negative } := by
  have hnum : num ≠ 0 := by
    rintro rfl
    have hpos : (0 : ℚ) < y.mantissa * 2 ^ y.exponent := by
      have : (0 : ℚ) < y.mantissa := by exact_mod_cast Nat.pos_of_ne_zero hzero
      positivity
    rw [Nat.cast_zero, zero_div, magnitude] at hvalue
    exact hpos.ne hvalue
  have hexponent := exponentOf_of_isNormal hy hnum hden hvalue
  obtain ⟨hup, hdown⟩ := digitsOf_bounds num hden
  have hscaled : (num : ℚ) / den / 2 ^ exponentOf num den = y.mantissa := by
    rw [hvalue, hexponent, magnitude, mul_div_assoc, div_self (by positivity), mul_one]
  rw [hscaled] at hup hdown
  have hdigits : digitsOf num den = y.mantissa := eq_of_halves hup hdown
  rw [ofFraction_eq negative hnum, hdigits, hexponent, if_neg hy.mantissa.ne,
    if_neg (not_lt.mpr hy.exponent)]

theorem exponentOf_le {e : ℤ} (hnum : num ≠ 0) (hden : 0 < den) (hleast : leastExponent ≤ e)
    (h : (num : ℚ) / den < 2 ^ (e + 53)) : exponentOf num den ≤ e := by
  obtain ⟨-, hle⟩ := exponentOf_spec hnum hden
  by_contra hbig
  have := lt_of_two_zpow_lt ((hle (hleast.trans_lt (not_le.mp hbig))).trans_lt h)
  omega

theorem le_exponentOf {e : ℤ} (hnum : num ≠ 0) (hden : 0 < den)
    (h : (2 : ℚ) ^ (e + 52) ≤ num / den) : e ≤ exponentOf num den := by
  obtain ⟨hlt, -⟩ := exponentOf_spec hnum hden
  have := lt_of_two_zpow_lt (h.trans_lt hlt)
  omega

/-- The nearest double of a fraction is at most half a unit in the last place away. -/
theorem abs_sub_le_of_ofFraction {e : ℤ} {negative : Bool} (hnum : num ≠ 0) (hden : 0 < den)
    (hleast : leastExponent ≤ e) (hlt : (num : ℚ) / den < 2 ^ (e + 53))
    (h : ofFraction negative num den = some y) : |y.magnitude - num / den| ≤ 2 ^ e / 2 := by
  obtain ⟨-, hmagnitude⟩ := magnitude_of_ofFraction hnum h
  obtain ⟨hup, hdown⟩ := digitsOf_bounds num hden
  have hunit : (0 : ℚ) < 2 ^ exponentOf num den := by positivity
  have hscaled : |(digitsOf num den : ℚ) - num / den / 2 ^ exponentOf num den| ≤ 1 / 2 :=
    abs_sub_le_iff.mpr ⟨by linarith, by linarith⟩
  calc |y.magnitude - num / den|
      = |(digitsOf num den : ℚ) - num / den / 2 ^ exponentOf num den| * 2 ^ exponentOf num den := by
        rw [hmagnitude, ← abs_of_pos hunit, ← abs_mul, abs_of_pos hunit, sub_mul,
          div_mul_cancel₀ _ hunit.ne']
    _ ≤ 1 / 2 * 2 ^ e :=
        mul_le_mul hscaled (zpow_le_zpow_right₀ one_le_two (exponentOf_le hnum hden hleast hlt))
          hunit.le (by norm_num)
    _ = 2 ^ e / 2 := one_div_mul_eq_div _ _

/-- The nearest double of a fraction that has no binary places is whole. -/
theorem exists_nat_of_ofFraction {negative : Bool} (hnum : num ≠ 0) (hden : 0 < den)
    (hge : (2 : ℚ) ^ 52 ≤ num / den) (h : ofFraction negative num den = some y) :
    ∃ k : ℕ, y.magnitude = k := by
  obtain ⟨-, hmagnitude⟩ := magnitude_of_ofFraction hnum h
  obtain ⟨j, hj⟩ := Int.eq_ofNat_of_zero_le (le_exponentOf (e := 0) hnum hden
    (by exact_mod_cast hge))
  refine ⟨digitsOf num den * 2 ^ j, ?_⟩
  rw [hmagnitude, hj]
  push_cast
  norm_cast

/-! ### Whole numbers -/

/-- A whole number of at most 53 binary digits is held exactly. -/
theorem ofNat?_spec (hpos : 0 < n) (hn : n < 2 ^ 53) :
    ∃ y, ofNat? n = some y ∧ y.IsNormal ∧ y.magnitude = n ∧ y.negative = false ∧
      y.mantissa ≠ 0 := by
  have hone : (1 : ℚ) ≤ n := by exact_mod_cast hpos
  have hbound : (n : ℚ) < 2 ^ (53 : ℤ) := by exact_mod_cast hn
  obtain ⟨hlt, hle⟩ := exponentOf_spec hpos.ne' one_pos
  rw [Nat.cast_one, div_one] at hlt hle
  have hleast : leastExponent < exponentOf n 1 := by
    have := lt_of_two_zpow_lt (((zpow_zero (2 : ℚ)).trans_le hone).trans_lt hlt)
    simp only [leastExponent]
    omega
  have hexponent : exponentOf n 1 ≤ 0 := by
    have := lt_of_two_zpow_lt ((hle hleast).trans_lt hbound)
    omega
  obtain ⟨k, hk⟩ : ∃ k : ℕ, exponentOf n 1 = -k := ⟨(-exponentOf n 1).toNat, by omega⟩
  -- at a negative exponent the digits of a whole number are whole
  have hscaled : (n : ℚ) / 2 ^ exponentOf n 1 = (n * 2 ^ k : ℕ) := by
    rw [hk, zpow_neg, zpow_natCast, div_inv_eq_mul]
    push_cast
    rfl
  have hdigits : digitsOf n 1 = n * 2 ^ k := by
    obtain ⟨hup, hdown⟩ := digitsOf_bounds n one_pos
    rw [Nat.cast_one, div_one, hscaled] at hup hdown
    exact eq_of_halves hup hdown
  have hshort : n * 2 ^ k < 2 ^ 53 := by
    rw [add_comm, zpow_add₀ two_ne_zero, ← div_lt_iff₀ (by positivity), hscaled] at hlt
    exact_mod_cast hlt
  have hlong : 2 ^ 52 ≤ n * 2 ^ k := by
    have hfull := hle hleast
    rw [add_comm, zpow_add₀ two_ne_zero, ← le_div_iff₀ (by positivity), hscaled] at hfull
    exact_mod_cast hfull
  have hgreatest : exponentOf n 1 ≤ greatestExponent := hexponent.trans (by decide)
  refine ⟨⟨false, n * 2 ^ k, exponentOf n 1⟩, ?_, ⟨⟨hshort, hgreatest⟩, hleast.le, fun _ => hlong⟩,
    ?_, rfl, by dsimp only; omega⟩
  · rw [ofNat?, ofFraction_eq false hpos.ne', hdigits, if_neg hshort.ne,
      if_neg (not_lt.mpr hgreatest)]
  · rw [magnitude, ← hscaled, div_mul_cancel₀ _ (by positivity)]

theorem ofNat_spec (hpos : 0 < n) (hn : n < 2 ^ 53) :
    (ofNat n).IsNormal ∧ (ofNat n).magnitude = n ∧ (ofNat n).negative = false ∧
      (ofNat n).mantissa ≠ 0 := by
  obtain ⟨y, hy, hspec⟩ := ofNat?_spec hpos hn
  rw [ofNat, hy]
  exact hspec

/-- A whole number has no sign. -/
theorem ofNat_unsigned (n : ℕ) : ({ ofNat n with negative := false } : Binary64) = ofNat n := by
  have hsign : (ofNat n).negative = false := by
    rcases Nat.eq_zero_or_pos n with rfl | hpos
    · rfl
    · unfold ofNat ofNat?
      cases hfound : ofFraction false n 1 with
      | none => rfl
      | some y => exact (magnitude_of_ofFraction hpos.ne' hfound).1
  rw [← hsign]

theorem exponent_nonpos (hx : x.IsNormal) (hmagnitude : x.magnitude = n) (hn : n < 2 ^ 53) :
    x.exponent ≤ 0 := by
  by_contra hpos
  have hdigits : ((2 ^ 52 : ℕ) : ℚ) ≤ x.mantissa := by
    exact_mod_cast hx.digits (lt_of_lt_of_le (by decide) (not_le.mp hpos).le)
  have hlarge : (2 : ℚ) ^ 53 ≤ x.magnitude := by
    calc (2 : ℚ) ^ 53 = (2 ^ 52 : ℕ) * 2 ^ (1 : ℤ) := by norm_num
      _ ≤ x.mantissa * 2 ^ x.exponent :=
        mul_le_mul hdigits (zpow_le_zpow_right₀ one_le_two (by omega)) (by positivity)
          (Nat.cast_nonneg _)
  rw [hmagnitude] at hlarge
  have hbelow : (n : ℚ) < 2 ^ 53 := by exact_mod_cast hn
  exact absurd hbelow (not_lt.mpr hlarge)

/-- The double of such a number is held exactly, too. -/
theorem ofNat_double_spec (hpos : 0 < n) (hn : n < 2 ^ 53) :
    (ofNat (2 * n)).magnitude = (2 * n : ℕ) ∧ (ofNat (2 * n)).negative = false := by
  obtain ⟨y, -, hy, hvalue, hsign, hzero⟩ := ofNat?_spec hpos hn
  have hleast : leastExponent < y.exponent := by
    have hone : (1 : ℚ) ≤ y.magnitude := by
      rw [hvalue]
      exact_mod_cast hpos
    have hbelow : y.magnitude < 2 ^ (53 + y.exponent) := by
      rw [magnitude, zpow_add₀ two_ne_zero]
      have hmantissa : (y.mantissa : ℚ) < 2 ^ (53 : ℤ) := by exact_mod_cast hy.mantissa
      gcongr
    have := lt_of_two_zpow_lt (((zpow_zero (2 : ℚ)).trans_le hone).trans_lt hbelow)
    simp only [leastExponent]
    omega
  have hnonpos := exponent_nonpos hy hvalue hn
  let z : Binary64 := { y with exponent := y.exponent + 1 }
  have hz : z.IsNormal := by
    refine ⟨⟨hy.mantissa, ?_⟩, ?_, fun _ => hy.digits hleast⟩
    · simp only [z, greatestExponent]
      omega
    · simp only [z]
      omega
  have hdouble : z.magnitude = (2 * n : ℕ) := by
    simp only [z, magnitude]
    rw [zpow_add_one₀ two_ne_zero, ← mul_assoc, ← magnitude, hvalue]
    push_cast
    ring
  have hround := ofFraction_of_isNormal hz hzero one_pos
    ((by rw [hdouble]; simp : ((2 * n : ℕ) : ℚ) / (1 : ℕ) = z.magnitude)) false
  rw [ofNat, ofNat?, hround]
  exact ⟨hdouble, rfl⟩

/-! ### The shortest decimal -/

/-- The decimal is the whole number, written with a power of ten that is not negative. -/
def Makes (n : ℕ) (d : Decimal) : Prop := ∃ m k : ℕ, d = ⟨m, k⟩ ∧ m * 10 ^ k = n

theorem digitCount_le_iff {k : ℕ} (hk : 0 < k) : digitCount n ≤ k ↔ n < 10 ^ k :=
  Nat.length_toDigits_le_iff (by decide) hk

theorem pow_le_of_lt_digitCount {k : ℕ} (hpos : 0 < n) (hk : k < digitCount n) : 10 ^ k ≤ n := by
  rcases Nat.eq_zero_or_pos k with rfl | hk'
  · exact hpos
  · exact not_lt.mp fun hlt => absurd ((digitCount_le_iff hk').mpr hlt) (not_le.mpr hk)

theorem fraction_of_magnitude (hmagnitude : x.magnitude = n) :
    0 < x.fraction.2 ∧ x.fraction.1 = n * x.fraction.2 := by
  obtain ⟨hden, hvalue⟩ := fraction_spec x
  rw [hmagnitude, div_eq_iff (by exact_mod_cast hden.ne')] at hvalue
  exact ⟨hden, by exact_mod_cast hvalue⟩

section
variable (hx : x.IsNormal) (hzero : x.mantissa ≠ 0) (hmagnitude : x.magnitude = n)
include hx hzero hmagnitude

variable (hn : n < 2 ^ 53)
include hn

/-- Of the whole numbers only the right one is read back. -/
theorem readsBack_iff {m k : ℕ} (hpos : 0 < m * 10 ^ k) :
    x.readsBack ⟨m, k⟩ = true ↔ m * 10 ^ k = n := by
  have hread : ofDecimal false m k = ofNat? (m * 10 ^ k) := by
    rw [ofDecimal, if_pos (Int.natCast_nonneg k), Int.toNat_natCast]
    rfl
  rw [readsBack, hread, beq_iff_eq]
  constructor
  · intro heq
    -- it is at most half a digit above the number, so that it is not too large to be exact
    have hhalf := le_of_ofFraction one_pos heq
    have hunit : (2 : ℚ) ^ x.exponent ≤ 1 :=
      zpow_le_one_of_nonpos₀ one_le_two (exponent_nonpos hx hmagnitude hn)
    have hle : ((m * 10 ^ k : ℕ) : ℚ) ≤ n + 1 / 2 := by
      calc ((m * 10 ^ k : ℕ) : ℚ) ≤ (x.mantissa + 1 / 2) * 2 ^ x.exponent := by simpa using hhalf
        _ = x.magnitude + 1 / 2 * 2 ^ x.exponent := add_mul _ _ _
        _ ≤ n + 1 / 2 := by rw [hmagnitude]; linarith
    have hnat : 2 * (m * 10 ^ k) ≤ 2 * n + 1 := by
      have hdouble : 2 * ((m * 10 ^ k : ℕ) : ℚ) ≤ 2 * n + 1 := by linarith
      exact_mod_cast hdouble
    obtain ⟨y, hy, -, hvalue, -, -⟩ := ofNat?_spec hpos (by omega)
    obtain rfl := Option.some.inj (hy.symm.trans heq)
    have hsame : x.magnitude = (m * 10 ^ k : ℕ) := hvalue
    rw [hmagnitude] at hsame
    exact_mod_cast hsame.symm
  · rintro rfl
    exact ofFraction_of_isNormal hx hzero one_pos (by rw [hmagnitude]; simp) false

/-- A grid that is not coarser than the number is hit where the number lies on it. -/
theorem onGrid_eq {k : ℕ} (hk : 10 ^ k ≤ n) :
    x.onGrid k = if 10 ^ k ∣ n then some ⟨n / 10 ^ k, k⟩ else none := by
  obtain ⟨hden, hnum⟩ := fraction_of_magnitude hmagnitude
  have hten : 0 < 10 ^ k := Nat.pow_pos (by decide)
  have hquotient : x.fraction.1 / (x.fraction.2 * Nat.pow 10 k) = n / 10 ^ k := by
    rw [hnum, Nat.mul_comm n]
    exact Nat.mul_div_mul_left _ _ hden
  have hfloor : n / 10 ^ k * 10 ^ k ≤ n := Nat.div_mul_le_self n _
  have hnext : n < (n / 10 ^ k + 1) * 10 ^ k := by
    rw [Nat.mul_comm]
    exact Nat.lt_mul_div_succ n hten
  have hsucc : (n / 10 ^ k + 1) * 10 ^ k = n / 10 ^ k * 10 ^ k + 10 ^ k := Nat.succ_mul _ _
  have hfirst : 0 < n / 10 ^ k * 10 ^ k := Nat.mul_pos (Nat.div_pos hk hten) hten
  have hbelow : x.readsBack ⟨n / 10 ^ k, k⟩ = decide (10 ^ k ∣ n) := by
    rw [Bool.eq_iff_iff, readsBack_iff hx hzero hmagnitude hn hfirst, decide_eq_true_eq,
      Nat.dvd_iff_div_mul_eq]
  have habove : x.readsBack ⟨n / 10 ^ k + 1, k⟩ = false := by
    rw [← Bool.not_eq_true, readsBack_iff hx hzero hmagnitude hn (by omega)]
    omega
  unfold onGrid
  dsimp only
  rw [if_pos (Int.natCast_nonneg k), Int.toNat_natCast]
  dsimp only
  rw [hquotient, hbelow, habove]
  by_cases hdvd : 10 ^ k ∣ n
  · rw [decide_eq_true hdvd, if_pos hdvd]
  · rw [decide_eq_false hdvd, if_neg hdvd]

theorem makes_firstHit (hpos : 0 < n) (fuel count : ℕ) (hcount : 0 < count)
    (hle : count ≤ digitCount n) (hfuel : digitCount n < count + fuel) :
    Makes n (x.firstHit (digitCount n) fuel count) := by
  induction fuel generalizing count with
  | zero => omega
  | succ fuel ih =>
    have hgrid : (digitCount n : ℤ) - count = (digitCount n - count : ℕ) := by omega
    have hhit := onGrid_eq hx hzero hmagnitude hn
      (pow_le_of_lt_digitCount hpos (by omega : digitCount n - count < digitCount n))
    unfold firstHit
    rw [hgrid, hhit]
    by_cases hdvd : 10 ^ (digitCount n - count) ∣ n
    · rw [if_pos hdvd]
      exact ⟨_, _, rfl, Nat.div_mul_cancel hdvd⟩
    · rw [if_neg hdvd]
      -- on the grid of all digits the number lies
      have hmore : count ≠ digitCount n := by
        intro heq
        rw [heq, Nat.sub_self, pow_zero] at hdvd
        exact hdvd (one_dvd n)
      exact ih (count + 1) (by omega) (by omega) (by omega)

end

theorem Makes.stripZeros {d : Decimal} (h : Makes n d) (fuel : ℕ) :
    Makes n (Binary64.stripZeros fuel d) := by
  induction fuel generalizing d with
  | zero => exact h
  | succ fuel ih =>
    unfold Binary64.stripZeros
    split
    · next hends =>
      obtain ⟨m, k, rfl, hn⟩ := h
      obtain ⟨digits, hdigits⟩ := Nat.dvd_of_mod_eq_zero hends.2
      dsimp only at hdigits
      subst hdigits
      refine ih ⟨digits, k + 1, ?_, ?_⟩
      · simp
      · rw [← hn, pow_succ]
        ring
    · exact h

/-- The shortest decimal of a whole number is the number itself. -/
theorem makes_shortest (hx : x.IsNormal) (hzero : x.mantissa ≠ 0) (hmagnitude : x.magnitude = n)
    (hpos : 0 < n) (hn : n < 2 ^ 53) : Makes n x.shortest := by
  obtain ⟨hden, hnum⟩ := fraction_of_magnitude hmagnitude
  have hposition : pointPosition x.fraction.1 x.fraction.2 = digitCount n := by
    rw [pointPosition, hnum, if_pos (Nat.le_mul_of_pos_left _ hpos), Nat.mul_div_cancel _ hden]
  have hdigits : digitCount n ≤ 16 := (digitCount_le_iff (by decide)).mpr (by omega)
  have hfirst : 0 < digitCount n := List.length_pos_iff.mpr Nat.toDigits_ne_nil
  have hnonzero : x.isZero = false := by simpa [isZero] using hzero
  unfold shortest
  rw [hnonzero]
  dsimp only
  rw [if_neg (by decide), hposition]
  have hmakes := makes_firstHit hx hzero hmagnitude hn hpos 17 1 (by decide) hfirst (by omega)
  exact hmakes.stripZeros 400

end Jobflow.Decimal.Binary64
