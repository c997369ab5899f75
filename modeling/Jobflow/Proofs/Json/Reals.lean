import Jobflow.Proofs.Decimal.Shortest
import Jobflow.Proofs.Json.Printing

/-!
Doubles in a text. The text of a double is a literal number that is read back as a double,
although not always as the same one: the reader multiplies or divides digits and a power of ten
that were rounded before.
-/

namespace Jobflow.Json

open Jobflow.Decimal (Binary64 valueOf)
open Jobflow.Decimal.Binary64 (isFinite_of_ofFraction isFinite_zero)
open Text (EndsDigits decimalValue isDigit)

/-! ### Literals -/

namespace Literal

/-- The literal can be written: digits where they have to be, and no zero before others. -/
structure Proper (lit : Literal) : Prop where
  whole : ∀ c ∈ lit.whole, isDigit c
  nonempty : lit.whole ≠ []
  leading : lit.whole.head? = some '0' → lit.whole = ['0']
  fraction : ∀ c ∈ lit.fraction, isDigit c
  exponent : ∀ below digits, lit.exponent = some (below, digits) →
    digits ≠ [] ∧ ∀ c ∈ digits, isDigit c

/-- The characters of an exponent. -/
def exponentChars : Option (Bool × List Char) → List Char
  | none => []
  | some (below, digits) => 'e' :: (if below then '-' else '+') :: digits

def pointChars (fraction : List Char) : List Char :=
  if fraction = [] then [] else '.' :: fraction

def chars (lit : Literal) : List Char :=
  (if lit.negative then ['-'] else []) ++
    (lit.whole ++ (pointChars lit.fraction ++ exponentChars lit.exponent))

end Literal

section
variable {ds rest : List Char}

theorem someDigits_append (hds : ∀ c ∈ ds, isDigit c) (hne : ds ≠ []) (hrest : EndsDigits rest) :
    someDigits (ds ++ rest) = .ok (ds, rest) := by
  have htake := Text.takeWhile_digits hds hrest
  have hdrop := Text.dropWhile_digits hds hrest
  obtain ⟨d, ds, rfl⟩ := List.exists_cons_of_ne_nil hne
  rw [someDigits, List.span_eq_takeWhile_dropWhile, htake, hdrop]

theorem ne_of_isDigit {c d : Char} (hc : isDigit c) (hd : isDigit d = false) : c ≠ d := by
  rintro rfl
  exact absurd (hd.symm.trans hc) Bool.false_ne_true

theorem endsDigits_of_delimited (h : Delimited rest) : EndsDigits rest := by
  intro c hc
  rcases h c hc with rfl | rfl | rfl | rfl <;> decide

theorem wholeDigits_append (hds : ∀ c ∈ ds, isDigit c) (hne : ds ≠ [])
    (hleading : ds.head? = some '0' → ds = ['0']) (hrest : EndsDigits rest) :
    wholeDigits (ds ++ rest) = .ok (ds, rest) := by
  rw [wholeDigits, someDigits_append hds hne hrest]
  simp only [bind, Except.bind]
  split
  · next hzero =>
    simp only [List.head?_cons, true_implies] at hleading
    cases hleading
  · rfl

theorem fractionDigits_append (hds : ∀ c ∈ ds, isDigit c) (hrest : EndsDigits rest)
    (hpoint : rest.head? ≠ some '.') :
    fractionDigits (Literal.pointChars ds ++ rest) = .ok (ds, rest) := by
  unfold Literal.pointChars
  split
  · next hempty =>
    subst hempty
    rw [List.nil_append]
    unfold fractionDigits
    split
    · exact absurd rfl hpoint
    · rfl
  · next hne => exact someDigits_append hds hne hrest

theorem exponentDigits_append {exponent : Option (Bool × List Char)}
    (hexponent : ∀ below digits, exponent = some (below, digits) →
      digits ≠ [] ∧ ∀ c ∈ digits, isDigit c) (hrest : Delimited rest) :
    exponentDigits (Literal.exponentChars exponent ++ rest) = .ok (exponent, rest) := by
  cases exponent with
  | none =>
    cases rest with
    | nil => rfl
    | cons c rest =>
      have hc : (c == 'e' || c == 'E') = false := by
        rcases hrest c rfl with rfl | rfl | rfl | rfl <;> rfl
      simp [Literal.exponentChars, exponentDigits, hc]
  | some found =>
    obtain ⟨below, digits⟩ := found
    obtain ⟨hne, hdigits⟩ := hexponent below digits rfl
    have hsome := someDigits_append hdigits hne (endsDigits_of_delimited hrest)
    cases below <;>
      simp [Literal.exponentChars, exponentDigits, hsome, bind, Except.bind, pure, Except.pure]

/-- What stands behind a fraction is neither a digit nor another point. -/
theorem head?_exponentChars {exponent : Option (Bool × List Char)} (hrest : Delimited rest)
    {c : Char} (hc : (Literal.exponentChars exponent ++ rest).head? = some c) :
    isDigit c = false ∧ c ≠ '.' := by
  cases exponent with
  | none => rcases hrest c hc with rfl | rfl | rfl | rfl <;> decide
  | some found =>
    obtain rfl := Option.some.inj hc
    decide

theorem endsDigits_pointChars (hrest : EndsDigits rest) :
    EndsDigits (Literal.pointChars ds ++ rest) := by
  intro c hc
  unfold Literal.pointChars at hc
  split at hc
  · exact hrest c hc
  · obtain rfl := Option.some.inj hc
    decide

/-- A literal is scanned from its characters. -/
theorem scanLiteral_chars {lit : Literal} (h : lit.Proper) (hrest : Delimited rest) :
    scanLiteral (lit.chars ++ rest) = .ok (lit, rest) := by
  obtain ⟨negative, whole, fraction, exponent⟩ := lit
  have hmark : EndsDigits (Literal.exponentChars exponent ++ rest) :=
    fun c hc => (head?_exponentChars hrest hc).1
  have hexponent := exponentDigits_append h.exponent hrest
  have hfraction := fractionDigits_append h.fraction hmark
    (fun hpoint => (head?_exponentChars hrest hpoint).2 rfl)
  have hpoint : EndsDigits (Literal.pointChars fraction ++
      (Literal.exponentChars exponent ++ rest)) :=
    endsDigits_pointChars hmark
  have hwhole := wholeDigits_append h.whole h.nonempty h.leading hpoint
  have hchars : (Literal.mk negative whole fraction exponent).chars ++ rest =
      (if negative then ['-'] else []) ++ (whole ++
        (Literal.pointChars fraction ++ (Literal.exponentChars exponent ++ rest))) := by
    simp only [Literal.chars, List.append_assoc]
  rw [hchars]
  obtain ⟨d, digits, rfl⟩ := List.exists_cons_of_ne_nil h.nonempty
  have hd : d ≠ '-' := ne_of_isDigit (h.whole d List.mem_cons_self) (by decide)
  simp only at hwhole hfraction hexponent
  rw [List.cons_append] at hwhole
  unfold scanLiteral
  cases negative with
  | true =>
    simp [hwhole, hfraction, hexponent, bind, Except.bind, pure, Except.pure]
  | false =>
    simp only [Bool.false_eq_true, if_false, List.nil_append, List.cons_append]
    split
    · next h => exact absurd (List.cons.inj h).1 hd
    · simp [hwhole, hfraction, hexponent, bind, Except.bind, pure, Except.pure]

end

/-! ### The literal of a double -/

/-- The literal that is written for a double. -/
def realLiteral (x : Binary64) : Literal :=
  let d := x.shortest
  let ds := Nat.toDigits 10 d.digits
  let point := ds.length + d.power
  if x.isZero then ⟨x.negative, ['0'], ['0'], none⟩
  else if 0 ≤ d.power ∧ point ≤ 16 then
    ⟨x.negative, ds ++ List.replicate d.power.toNat '0', ['0'], none⟩
  else if 0 < point ∧ point ≤ 16 then
    ⟨x.negative, ds.take point.toNat, ds.drop point.toNat, none⟩
  else if -5 < point ∧ point ≤ 0 then
    ⟨x.negative, ['0'], List.replicate (-point).toNat '0' ++ ds, none⟩
  else
    ⟨x.negative, ds.take 1, ds.drop 1,
      some (point - 1 < 0, Nat.toDigits 10 (point - 1).natAbs)⟩

theorem signed_append (negative : Bool) (body : List Char) :
    (if negative then '-' :: body else body) = (if negative then ['-'] else []) ++ body := by
  cases negative <;> rfl

/-- The text of a double is that of its literal. -/
theorem toList_text (x : Binary64) : x.text.toList = (realLiteral x).chars := by
  unfold Binary64.text realLiteral
  dsimp only
  rw [String.toList_ofList, signed_append]
  have hdigits : Nat.toDigits 10 x.shortest.digits ≠ [] := Nat.toDigits_ne_nil
  generalize Nat.toDigits 10 x.shortest.digits = ds at hdigits
  generalize x.shortest.power = power
  generalize hpoint : (ds.length : Int) + power = point
  by_cases hzero : x.isZero = true
  · simp only [if_pos hzero]
    simp [Literal.chars, Literal.pointChars, Literal.exponentChars]
  by_cases hwhole : 0 ≤ power ∧ point ≤ 16
  · simp only [if_neg hzero, if_pos hwhole]
    simp [Literal.chars, Literal.pointChars, Literal.exponentChars]
  by_cases hinside : 0 < point ∧ point ≤ 16
  · have hfraction : ds.drop point.toNat ≠ [] := by
      rw [Ne, List.drop_eq_nil_iff]
      omega
    simp only [if_neg hzero, if_neg hwhole, if_pos hinside]
    simp [Literal.chars, Literal.pointChars, Literal.exponentChars, hfraction]
  by_cases hbefore : -5 < point ∧ point ≤ 0
  · simp only [if_neg hzero, if_neg hwhole, if_neg hinside, if_pos hbefore]
    simp [Literal.chars, Literal.pointChars, Literal.exponentChars, hdigits]
  · simp only [if_neg hzero, if_neg hwhole, if_neg hinside, if_neg hbefore]
    match ds, hdigits with
    | [one], _ => simp [Literal.chars, Literal.pointChars, Literal.exponentChars]
    | first :: second :: rest, _ =>
      simp [Literal.chars, Literal.pointChars, Literal.exponentChars]

/-! ### Values of literals -/

namespace Literal

/-- The power of ten of the exponent. -/
def exponentPower (lit : Literal) : Int :=
  match lit.exponent with
  | none => 0
  | some (below, digits) => if below then -(decimalValue digits : Int) else decimalValue digits

/-- The magnitude that the literal writes. -/
def value (lit : Literal) : ℚ :=
  decimalValue (lit.whole ++ lit.fraction) * 10 ^ (lit.exponentPower - lit.fraction.length)

end Literal

section
variable {x : Binary64}

theorem isDigit_of_mem_toDigits {n : Nat} : ∀ c ∈ Nat.toDigits 10 n, isDigit c := by
  intro c hc
  rw [Text.isDigit_eq]
  exact Nat.isDigit_of_mem_toDigits (by decide) (by decide) hc

theorem isDigit_of_mem_zeros {count : Nat} : ∀ c ∈ List.replicate count '0', isDigit c := by
  intro c hc
  rw [List.eq_of_mem_replicate hc]
  decide

theorem mem_digits {P : Char → Prop} {as bs : List Char} (has : ∀ c ∈ as, P c)
    (hbs : ∀ c ∈ bs, P c) :
    ∀ c ∈ as ++ bs, P c := by
  intro c hc
  exact (List.mem_append.mp hc).elim (has c) (hbs c)

theorem ne_zero_of_not_isZero (h : ¬ x.isZero = true) : x.mantissa ≠ 0 := by
  simpa [Binary64.isZero] using h

theorem proper_realLiteral : (realLiteral x).Proper := by
  unfold realLiteral
  dsimp only
  have hmem : ∀ c ∈ Nat.toDigits 10 x.shortest.digits, isDigit c := isDigit_of_mem_toDigits
  have hne : Nat.toDigits 10 x.shortest.digits ≠ [] := Nat.toDigits_ne_nil
  have hhead : ¬ x.isZero = true → (Nat.toDigits 10 x.shortest.digits).head? ≠ some '0' := fun h =>
    Text.head_toDigits_ne_zero (Binary64.near_shortest (ne_zero_of_not_isZero h)).digits
  generalize Nat.toDigits 10 x.shortest.digits = ds at hmem hne hhead
  generalize x.shortest.power = power
  generalize (ds.length : Int) + power = point
  have hone : ∀ c ∈ ['0'], isDigit c := by simp [isDigit]
  split
  · exact ⟨hone, List.cons_ne_nil _ _, fun _ => rfl, hone, by simp⟩
  next hzero =>
  have hleading := hhead hzero
  split
  · refine ⟨mem_digits hmem isDigit_of_mem_zeros, by simp [hne], ?_, hone, by simp⟩
    intro h
    rw [List.head?_append_of_ne_nil _ hne] at h
    exact absurd h hleading
  split
  · next hinside =>
    have hpoint : point.toNat ≠ 0 := by omega
    refine ⟨fun c hc => hmem c (List.mem_of_mem_take hc), by simp [hne, hpoint], ?_,
      fun c hc => hmem c (List.mem_of_mem_drop hc), by simp⟩
    intro h
    rw [List.head?_take, if_neg hpoint] at h
    exact absurd h hleading
  split
  · exact ⟨hone, List.cons_ne_nil _ _, fun _ => rfl, mem_digits isDigit_of_mem_zeros hmem, by simp⟩
  · refine ⟨fun c hc => hmem c (List.mem_of_mem_take hc), by simp [hne], ?_,
      fun c hc => hmem c (List.mem_of_mem_drop hc), ?_⟩
    · intro h
      rw [List.head?_take, if_neg (by decide)] at h
      exact absurd h hleading
    · intro below digits h
      obtain ⟨-, rfl⟩ := Prod.mk.inj (Option.some.inj h)
      exact ⟨Nat.toDigits_ne_nil, isDigit_of_mem_toDigits⟩

/-- Zeros behind the digits, the last of them behind the point. -/
theorem decimalValue_zeros_behind (ds : List Char) (count : Nat) :
    decimalValue (ds ++ List.replicate count '0' ++ ['0']) =
      10 ^ (count + 1) * decimalValue ds := by
  rw [List.append_assoc, ← List.replicate_succ', Text.decimalValue_append, Text.decimalValue_zeros,
    List.length_replicate, Nat.add_zero]

/-- Zeros before the digits, the first of them before the point. -/
theorem decimalValue_zeros_before (ds : List Char) (count : Nat) :
    decimalValue (['0'] ++ (List.replicate count '0' ++ ds)) = decimalValue ds := by
  rw [← List.append_assoc, ← List.replicate_one, List.replicate_append_replicate,
    Text.decimalValue_append, Text.decimalValue_zeros, Nat.mul_zero, Nat.zero_add]

theorem value_realLiteral (hx : ¬ x.isZero = true) :
    (realLiteral x).value = valueOf x.shortest := by
  unfold realLiteral Literal.value Literal.exponentPower valueOf
  dsimp only
  rw [if_neg hx]
  have hdigits : decimalValue (Nat.toDigits 10 x.shortest.digits) = x.shortest.digits :=
    Text.decimalValue_toDigits _
  have hne : Nat.toDigits 10 x.shortest.digits ≠ [] := Nat.toDigits_ne_nil
  generalize Nat.toDigits 10 x.shortest.digits = ds at hdigits hne
  generalize x.shortest.power = power
  generalize hpoint : (ds.length : Int) + power = point
  rw [← hdigits]
  split
  · next hwhole =>
    obtain ⟨k, rfl⟩ := Int.eq_ofNat_of_zero_le hwhole.1
    rw [Int.toNat_natCast, decimalValue_zeros_behind]
    push_cast
    simp
    ring
  split
  · next hwhole hinside =>
    dsimp only
    rw [List.take_append_drop, List.length_drop]
    congr 2
    omega
  split
  · next hbefore =>
    dsimp only
    rw [decimalValue_zeros_before, List.length_append, List.length_replicate]
    congr 2
    omega
  · have hlength : 0 < ds.length := List.length_pos_iff.mpr hne
    have hsize : (if decide (point - 1 < 0) = true then -((point - 1).natAbs : Int)
        else (point - 1).natAbs) = point - 1 := by
      simp only [decide_eq_true_eq]
      omega
    dsimp only
    rw [List.take_append_drop, List.length_drop, Text.decimalValue_toDigits, hsize]
    congr 2
    omega

end

/-! ### Digits of 64 bits -/

/-- Digits are taken up to the first that makes them too long for 64 bits. -/
theorem takeDigits_spec (significand count : Nat) (cs : List Char) :
    ∃ used left, cs = used ++ left ∧
      takeDigits significand count cs =
        (10 ^ used.length * significand + decimalValue used, count + used.length, left) ∧
      (significand ≤ Text.maxU64 →
        10 ^ used.length * significand + decimalValue used ≤ Text.maxU64) ∧
      ∀ c rest, left = c :: rest → Text.maxU64 <
        10 * (10 ^ used.length * significand + decimalValue used) + Text.digitValue c := by
  induction cs generalizing significand count with
  | nil => exact ⟨[], [], rfl, by simp [takeDigits, decimalValue], by simp [decimalValue], nofun⟩
  | cons c rest ih =>
    unfold takeDigits
    dsimp only
    split
    · next hlong =>
      refine ⟨[], c :: rest, rfl, by simp [decimalValue], by simp [decimalValue], ?_⟩
      rintro _ _ ⟨⟩
      simpa [decimalValue] using hlong
    · next hfits =>
      obtain ⟨used, left, rfl, htake, hle, hstop⟩ :=
        ih (10 * significand + Text.digitValue c) (count + 1)
      have hvalue : 10 ^ (c :: used).length * significand + decimalValue (c :: used) =
          10 ^ used.length * (10 * significand + Text.digitValue c) + decimalValue used := by
        rw [Text.decimalValue_cons, List.length_cons, Nat.pow_succ]
        ring
      refine ⟨c :: used, left, rfl, ?_, ?_, ?_⟩
      · rw [htake, hvalue, List.length_cons, Nat.add_right_comm, Nat.add_assoc]
      · rw [hvalue]
        exact fun _ => hle (not_lt.mp hfits)
      · rw [hvalue]
        exact hstop

/-- Digits that fit 64 bits are all taken. -/
theorem takeDigits_of_le {cs : List Char} (h : decimalValue cs ≤ Text.maxU64) :
    takeDigits 0 0 cs = (decimalValue cs, cs.length, []) := by
  obtain ⟨used, left, rfl, htake, -, hstop⟩ := takeDigits_spec 0 0 cs
  rw [Nat.mul_zero, Nat.zero_add, Nat.zero_add] at htake
  cases left with
  | nil => rw [htake, List.append_nil]
  | cons c rest =>
    have hlong := hstop c rest rfl
    rw [Nat.mul_zero, Nat.zero_add] at hlong
    have hshort : 10 * decimalValue used + Text.digitValue c ≤
        decimalValue (used ++ c :: rest) := by
      rw [Text.decimalValue_append, Text.decimalValue_cons, List.length_cons, Nat.pow_succ]
      have hpow : 0 < 10 ^ rest.length := Nat.pow_pos (by decide)
      nlinarith
    omega

/-! ### Multiplying by powers of ten -/

/-- The powers of ten of the table are finite, and none is rounded to zero. -/
theorem exists_ten (power : Int) (hpos : 0 ≤ power) (hle : power ≤ 308) :
    ∃ ten, Binary64.ofDecimal false 1 power = some ten ∧ ten.mantissa ≠ 0 := by
  have hall : ∀ n < 309, (Binary64.ofDecimal false 1 (n : Nat)).any fun ten =>
      ten.mantissa != 0 := by
    decide +kernel
  obtain ⟨n, rfl⟩ := Int.eq_ofNat_of_zero_le hpos
  have hten := hall n (by omega)
  rw [Option.any_eq_true] at hten
  obtain ⟨ten, hsome, hmantissa⟩ := hten
  exact ⟨ten, hsome, by simpa using hmantissa⟩

theorem isFinite_mul {x y z : Binary64} (h : x.mul y = some z) : z.IsFinite := by
  obtain ⟨num, den, hden, hmul, -⟩ := Binary64.mul_eq x y
  exact isFinite_of_ofFraction hden (hmul ▸ h)

theorem isFinite_div {x y z : Binary64} (hy : y.mantissa ≠ 0) (h : x.div y = some z) :
    z.IsFinite := by
  obtain ⟨num, den, hden, hdiv, -⟩ := Binary64.div_eq x hy
  exact isFinite_of_ofFraction hden (hdiv ▸ h)

theorem isFinite_div_getD {x y : Binary64} (hx : x.IsFinite) (hy : y.mantissa ≠ 0) :
    ((x.div y).getD x).IsFinite := by
  cases hquotient : x.div y with
  | none => exact hx
  | some z => exact isFinite_div hy hquotient

-- the table is sealed, for its greatest entry is not to be computed in passing
seal Binary64.ofDecimal in
/-- One step of scaling. -/
theorem scaleByTen_succ (x : Binary64) (power : Int) (fuel : Nat) :
    scaleByTen x power (fuel + 1) =
      if power.natAbs ≤ 308 then
        match Binary64.ofDecimal false 1 power.natAbs with
        | none => .error .numberOutOfRange
        | some ten =>
          if 0 ≤ power then
            match x.mul ten with
            | some y => .ok y
            | none => .error .numberOutOfRange
          else .ok ((x.div ten).getD x)
      else if x.isZero then .ok x
      else if 0 ≤ power then .error .numberOutOfRange
      else
        match Binary64.ofDecimal false 1 308 with
        | none => .error .numberOutOfRange
        | some ten => scaleByTen ((x.div ten).getD x) (power + 308) fuel := rfl

theorem isFinite_scaleByTen {x y : Binary64} {power : Int} {fuel : Nat} (hx : x.IsFinite)
    (h : scaleByTen x power fuel = .ok y) : y.IsFinite := by
  induction fuel generalizing x power with
  | zero =>
    obtain rfl : x = y := Except.ok.inj h
    exact hx
  | succ fuel ih =>
    rw [scaleByTen_succ] at h
    obtain ⟨top, htop, htopMantissa⟩ := exists_ten 308 (by decide) (by decide)
    split at h
    · next hsize =>
      obtain ⟨ten, hten, hmantissa⟩ :=
        exists_ten power.natAbs (Int.natCast_nonneg power.natAbs) (by omega)
      rw [hten] at h
      dsimp only at h
      split at h
      · split at h
        · next hproduct =>
          obtain rfl := Except.ok.inj h
          exact isFinite_mul hproduct
        · cases h
      · obtain rfl := Except.ok.inj h
        exact isFinite_div_getD hx hmantissa
    · split at h
      · obtain rfl := Except.ok.inj h
        exact hx
      · split at h
        · cases h
        · rw [htop] at h
          exact ih (isFinite_div_getD hx htopMantissa) h

/-- Dividing by a power of ten always gives a number. -/
theorem exists_scaleByTen_of_neg (x : Binary64) {power : Int} (hpower : power < 0) (fuel : Nat) :
    ∃ y, scaleByTen x power fuel = .ok y := by
  induction fuel generalizing x power with
  | zero => exact ⟨x, rfl⟩
  | succ fuel ih =>
    rw [scaleByTen_succ]
    obtain ⟨top, htop, -⟩ := exists_ten 308 (by decide) (by decide)
    split
    · next hsize =>
      obtain ⟨ten, hten, -⟩ := exists_ten power.natAbs (Int.natCast_nonneg power.natAbs) (by omega)
      rw [hten]
      dsimp only
      rw [if_neg (not_le.mpr hpower)]
      exact ⟨_, rfl⟩
    · split
      · exact ⟨_, rfl⟩
      · rw [if_neg (not_le.mpr hpower)]
        rw [htop]
        exact ih _ (by omega)

/-- Scaling does not overflow below the fourth greatest double: the two factors and their product
are each rounded by less than half a unit of its last place. -/
theorem exists_scaleByTen (significand : Nat) {power : Int} (hpower : power ≤ 308)
    (hvalue : (significand : ℚ) * 10 ^ power ≤ (2 ^ 53 - 7 / 2) * 2 ^ Binary64.greatestExponent) :
    ∃ y, scaleByTen (Binary64.ofNat significand) power 8 = .ok y := by
  rcases lt_or_ge power 0 with hneg | hpos
  · exact exists_scaleByTen_of_neg _ hneg 8
  · obtain ⟨n, rfl⟩ := Int.eq_ofNat_of_zero_le hpos
    obtain ⟨ten, hten, -⟩ := exists_ten n hpos hpower
    obtain ⟨num, den, hden, hmul, hproduct⟩ := Binary64.mul_eq (Binary64.ofNat significand) ten
    have hsignificand := Binary64.magnitude_ofNat_le significand
    have htenLe : ten.magnitude ≤ 10 ^ n * (1 + 1 / 2 ^ 53) := by
      rw [Binary64.ofDecimal, if_pos hpos, Int.toNat_natCast, Nat.one_mul] at hten
      have hle := Binary64.magnitude_le_of_ofFraction one_pos (Nat.pow_pos (by decide)) hten
      simpa using hle
    have hlt : ∀ unit : ℚ, 0 < unit → significand * 10 ^ n ≤ (2 ^ 53 - 7 / 2) * unit →
        (num : ℚ) / den < (2 ^ 53 - 1 / 2) * unit := by
      intro unit hunit hvalue
      calc (num : ℚ) / den
          = (Binary64.ofNat significand).magnitude * ten.magnitude := hproduct
        _ ≤ significand * (1 + 1 / 2 ^ 53) * (10 ^ n * (1 + 1 / 2 ^ 53)) :=
          mul_le_mul hsignificand htenLe ten.magnitude_nonneg (by positivity)
        _ = significand * 10 ^ n * (1 + 1 / 2 ^ 53) ^ 2 := by ring
        _ ≤ (2 ^ 53 - 7 / 2) * unit * (1 + 1 / 2 ^ 53) ^ 2 := by gcongr
        _ = (2 ^ 53 - 7 / 2) * (1 + 1 / 2 ^ 53) ^ 2 * unit := by ring
        _ < (2 ^ 53 - 1 / 2) * unit := by
          gcongr
          norm_num
    rw [zpow_natCast] at hvalue
    obtain ⟨y, hy⟩ := Binary64.exists_ofFraction
      ((Binary64.ofNat significand).negative != ten.negative) hden
      (hlt _ (by positivity) hvalue)
    refine ⟨y, ?_⟩
    rw [scaleByTen_succ, if_pos (by omega), Int.natAbs_natCast, hten]
    dsimp only
    rw [if_pos hpos, hmul, hy]

/-! ### Literals that do not overflow -/

namespace Literal

variable {lit : Literal}

/-- The digits that are kept, with their power of ten, make no more than the literal writes. -/
theorem kept_le_value {used left : List Char} (h : lit.fraction = used ++ left) :
    (decimalValue (lit.whole ++ used) : ℚ) * 10 ^ (lit.exponentPower - used.length) ≤
      lit.value := by
  have hpower : lit.exponentPower - used.length =
      left.length + (lit.exponentPower - lit.fraction.length) := by
    rw [h, List.length_append]
    omega
  have hnat : decimalValue (lit.whole ++ used) * 10 ^ left.length ≤
      decimalValue (lit.whole ++ lit.fraction) := by
    rw [h, ← List.append_assoc, Text.decimalValue_append (lit.whole ++ used), Nat.mul_comm]
    exact Nat.le_add_right _ _
  have hcast : (decimalValue (lit.whole ++ used) : ℚ) * 10 ^ left.length ≤
      decimalValue (lit.whole ++ lit.fraction) := by exact_mod_cast hnat
  rw [hpower, zpow_add₀ (by norm_num), zpow_natCast, ← mul_assoc, value]
  gcongr

theorem exponentPower_le (hlead : 0 < lit.exponentPower → decimalValue lit.whole ≠ 0)
    (hvalue : lit.value ≤ (2 ^ 53 - 7 / 2) * 2 ^ Binary64.greatestExponent) :
    lit.exponentPower ≤ 308 := by
  by_contra hbig
  have hwhole : (1 : ℚ) ≤ decimalValue lit.whole := by
    exact_mod_cast Nat.one_le_iff_ne_zero.mpr (hlead (by omega))
  have hkept : (decimalValue lit.whole : ℚ) * 10 ^ lit.exponentPower ≤ lit.value := by
    have hnone : lit.fraction = [] ++ lit.fraction := rfl
    simpa using kept_le_value hnone
  have hnat : (2 ^ 53 * 2 ^ 971 : ℕ) < 10 ^ 309 := by decide +kernel
  have hcast : (2 : ℚ) ^ 53 * 2 ^ (971 : ℕ) < 10 ^ (309 : ℕ) := by exact_mod_cast hnat
  have hpow : (10 : ℚ) ^ (309 : ℕ) ≤ 10 ^ lit.exponentPower := by
    rw [← zpow_natCast]
    exact zpow_le_zpow_right₀ (by norm_num) (by omega)
  have hunit : (2 : ℚ) ^ Binary64.greatestExponent = 2 ^ (971 : ℕ) := zpow_natCast 2 971
  have hunitPos : (0 : ℚ) < 2 ^ (971 : ℕ) := by positivity
  rw [hunit] at hvalue
  generalize (2 : ℚ) ^ (971 : ℕ) = unit at hcast hunitPos hvalue
  generalize (10 : ℚ) ^ (309 : ℕ) = bound at hcast hpow
  have hscaled : (10 : ℚ) ^ lit.exponentPower ≤ decimalValue lit.whole * 10 ^ lit.exponentPower :=
    le_mul_of_one_le_left (by positivity) hwhole
  linarith

theorem exists_real (hfits : decimalValue lit.whole ≤ Text.maxU64)
    (hlead : 0 < lit.exponentPower → decimalValue lit.whole ≠ 0)
    (hvalue : lit.value ≤ (2 ^ 53 - 7 / 2) * 2 ^ Binary64.greatestExponent) :
    ∃ y, lit.real = .ok (.real y) := by
  obtain ⟨used, left, hfraction, htake, -, -⟩ :=
    takeDigits_spec (decimalValue lit.whole) 0 lit.fraction
  have hexponent := exponentPower_le hlead hvalue
  have hscale : ∀ power, power = lit.exponentPower - used.length → ∃ y,
      (do
        let x ← scaleByTen
          (Binary64.ofNat (10 ^ used.length * decimalValue lit.whole + decimalValue used)) power 8
        return Number.real { x with negative := lit.negative } : Except SyntaxError Number) =
          .ok (.real y) := by
    rintro _ rfl
    have hkept := (kept_le_value hfraction).trans hvalue
    rw [Text.decimalValue_append] at hkept
    obtain ⟨y, hy⟩ := exists_scaleByTen _ (by omega) hkept
    exact ⟨{ y with negative := lit.negative }, by rw [hy]; rfl⟩
  unfold real
  rw [takeDigits_of_le hfits]
  dsimp only
  rw [htake]
  dsimp only
  cases hexp : lit.exponent with
  | none =>
    rw [exponentPower, hexp] at hscale
    exact hscale _ (by simp)
  | some found =>
    obtain ⟨below, digits⟩ := found
    rw [exponentPower, hexp] at hexponent hscale
    dsimp only at hexponent hscale ⊢
    split
    · next hsize =>
      have hbelow : below = true := by
        by_contra hup
        rw [if_neg hup] at hexponent
        rw [maxExponent] at hsize
        omega
      rw [hbelow, if_neg (by simp)]
      exact ⟨_, rfl⟩
    · exact hscale _ (by split <;> simp <;> omega)

end Literal

/-- What does not fit 64 bits, or is not whole, is a finite double if it is a number. -/
theorem Literal.isFinite_real {lit : Literal} {n : Number} (h : lit.real = .ok n) :
    ∃ y, n = .real y ∧ y.IsFinite := by
  have hscale : ∀ significand power, (do
      let x ← scaleByTen (Binary64.ofNat significand) power 8
      return Number.real { x with negative := lit.negative }) =
        (.ok n : Except SyntaxError Number) → ∃ y, n = .real y ∧ y.IsFinite := by
    intro significand power hn
    cases hscaled : scaleByTen (Binary64.ofNat significand) power 8 with
    | error e => simp [hscaled, bind, Except.bind] at hn
    | ok x =>
      rw [hscaled] at hn
      have hx := isFinite_scaleByTen (Binary64.isFinite_ofNat significand) hscaled
      exact ⟨_, (Except.ok.inj hn).symm, hx.withSign _⟩
  unfold real at h
  generalize takeDigits 0 0 lit.whole = taken at h
  obtain ⟨significand, count, dropped⟩ := taken
  dsimp only at h
  generalize takeDigits significand 0 lit.fraction = taken at h
  obtain ⟨significand, count, _⟩ := taken
  dsimp only at h
  split at h
  · exact hscale _ _ h
  · split at h
    · split at h
      · cases h
      · exact ⟨_, (Except.ok.inj h).symm, isFinite_zero.withSign _⟩
    · exact hscale _ _ h

theorem Literal.isFinite_number {lit : Literal} {y : Binary64} (h : lit.number = .ok (.real y)) :
    y.IsFinite := by
  unfold number at h
  dsimp only at h
  split at h
  · split at h
    · simp at h
    · split at h
      · obtain rfl := Number.real.inj (Except.ok.inj h)
        exact (Binary64.isFinite_ofNat _).withSign _
      · simp at h
  · obtain ⟨y, hy, hfinite⟩ := isFinite_real h
    obtain rfl := Number.real.inj hy
    exact hfinite

/-! ### Doubles that are read back -/

section
variable {x : Binary64}

theorem length_whole_realLiteral (x : Binary64) : (realLiteral x).whole.length ≤ 16 := by
  unfold realLiteral
  dsimp only
  repeat' split
  all_goals simp
  all_goals omega

/-- The text of a double is not that of a whole number. -/
theorem realLiteral_not_whole (x : Binary64) :
    (realLiteral x).fraction ≠ [] ∨ (realLiteral x).exponent ≠ none := by
  have hne : Nat.toDigits 10 x.shortest.digits ≠ [] := Nat.toDigits_ne_nil
  unfold realLiteral
  dsimp only
  generalize Nat.toDigits 10 x.shortest.digits = ds at hne
  repeat' split
  · simp
  · simp
  · left
    rw [Ne, List.drop_eq_nil_iff]
    omega
  · simp [hne]
  · simp

/-- An exponent stands behind a digit other than zero. -/
theorem decimalValue_whole_ne_zero (hpower : 0 < (realLiteral x).exponentPower) :
    decimalValue (realLiteral x).whole ≠ 0 := by
  have hnone : ∀ {lit : Literal}, 0 < lit.exponentPower → lit.exponent = none → False := by
    intro lit hpos hexponent
    rw [Literal.exponentPower, hexponent] at hpos
    exact absurd hpos (lt_irrefl 0)
  unfold realLiteral at hpower ⊢
  dsimp only at hpower ⊢
  split at hpower
  · exact (hnone hpower rfl).elim
  split at hpower
  · exact (hnone hpower rfl).elim
  split at hpower
  · exact (hnone hpower rfl).elim
  split at hpower
  · exact (hnone hpower rfl).elim
  · next hzero hwhole hinside hbefore =>
    rw [if_neg hzero, if_neg hwhole, if_neg hinside, if_neg hbefore]
    have hhead := Text.head_toDigits_ne_zero
      (Binary64.near_shortest (ne_zero_of_not_isZero hzero)).digits
    have hdigits := @isDigit_of_mem_toDigits x.shortest.digits
    have hne : Nat.toDigits 10 x.shortest.digits ≠ [] := Nat.toDigits_ne_nil
    generalize Nat.toDigits 10 x.shortest.digits = ds at hhead hdigits hne
    obtain ⟨c, ds, rfl⟩ := List.exists_cons_of_ne_nil hne
    have hc := Text.isDigit_iff.mp (hdigits c List.mem_cons_self)
    have hzero : '0'.toNat = 48 := rfl
    have hne : c.toNat ≠ '0'.toNat := fun h => hhead (by rw [List.head?_cons, Char.toNat_inj.mp h])
    dsimp only [List.take]
    rw [Text.decimalValue_cons, Text.digitValue, List.length_nil, Nat.pow_zero]
    omega

theorem value_realLiteral_zero (hx : x.isZero = true) : (realLiteral x).value = 0 := by
  unfold realLiteral Literal.value
  dsimp only
  rw [if_pos hx]
  simp [decimalValue, Text.digitValue]

/-- The three greatest doubles of either sign have a text that does not overflow. -/
theorem greatest_number (negative : Bool) {k : Nat} (hk : 1 ≤ k ∧ k ≤ 3) :
    ∃ n, (realLiteral ⟨negative, 2 ^ 53 - k, 971⟩).real = .ok n := by
  have hall : ∀ negative, ∀ k ≤ 3, 1 ≤ k →
      (realLiteral ⟨negative, 2 ^ 53 - k, 971⟩).real.toOption.isSome := by decide +kernel
  have hsome := hall negative k hk.2 hk.1
  cases hreal : (realLiteral ⟨negative, 2 ^ 53 - k, 971⟩).real with
  | error e =>
    rw [hreal] at hsome
    cases hsome
  | ok n => exact ⟨n, rfl⟩

theorem value_realLiteral_le (hx : x.IsFinite)
    (hbelow : x.exponent = Binary64.greatestExponent → x.mantissa ≤ 2 ^ 53 - 4) :
    (realLiteral x).value ≤ (2 ^ 53 - 7 / 2) * 2 ^ Binary64.greatestExponent := by
  have hunit : (0 : ℚ) < 2 ^ Binary64.greatestExponent := by positivity
  by_cases hzero : x.isZero = true
  · rw [value_realLiteral_zero hzero]
    exact mul_nonneg (by norm_num) hunit.le
  · rw [value_realLiteral hzero]
    refine (Binary64.near_shortest (ne_zero_of_not_isZero hzero)).value.trans ?_
    rcases lt_or_eq_of_le hx.exponent with hlt | heq
    · have hmantissa : (x.mantissa : ℚ) + 1 / 2 ≤ 2 ^ 53 := by
        have hle : (x.mantissa : ℚ) + 1 ≤ 2 ^ 53 := by exact_mod_cast hx.mantissa
        linarith
      have hpow : (2 : ℚ) ^ x.exponent ≤ 2 ^ Binary64.greatestExponent / 2 := by
        rw [div_eq_mul_inv, ← zpow_sub_one₀ two_ne_zero]
        exact zpow_le_zpow_right₀ one_le_two (by omega)
      calc ((x.mantissa : ℚ) + 1 / 2) * 2 ^ x.exponent
          ≤ 2 ^ 53 * (2 ^ Binary64.greatestExponent / 2) := by gcongr
        _ = 2 ^ 52 * 2 ^ Binary64.greatestExponent := by ring
        _ ≤ (2 ^ 53 - 7 / 2) * 2 ^ Binary64.greatestExponent := by
          gcongr
          norm_num
    · have hmantissa : (x.mantissa : ℚ) ≤ 2 ^ 53 - 4 := by
        have hle : x.mantissa + 4 ≤ 2 ^ 53 := by
          have := hbelow heq
          omega
        have hcast : (x.mantissa : ℚ) + 4 ≤ 2 ^ 53 := by exact_mod_cast hle
        linarith
      rw [heq]
      gcongr
      linarith

/-- The text of a finite double is read as a finite double. -/
theorem exists_number_realLiteral (hx : x.IsFinite) :
    ∃ y, (realLiteral x).number = .ok (.real y) ∧ y.IsFinite := by
  have hreal : ∃ n, (realLiteral x).real = .ok n := by
    by_cases hgreat : x.exponent = Binary64.greatestExponent ∧ 2 ^ 53 - 4 < x.mantissa
    · obtain ⟨negative, mantissa, exponent⟩ := x
      obtain ⟨rfl, hmantissa⟩ := hgreat
      have hbound := hx.mantissa
      dsimp only at hmantissa hbound
      obtain ⟨k, hk, rfl⟩ : ∃ k, (1 ≤ k ∧ k ≤ 3) ∧ mantissa = 2 ^ 53 - k :=
        ⟨2 ^ 53 - mantissa, by omega, by omega⟩
      exact greatest_number negative hk
    · have hfits : decimalValue (realLiteral x).whole ≤ Text.maxU64 :=
        calc decimalValue (realLiteral x).whole
            ≤ 10 ^ (realLiteral x).whole.length :=
              (Text.decimalValue_lt proper_realLiteral.whole).le
          _ ≤ 10 ^ 16 := Nat.pow_le_pow_right (by decide) (length_whole_realLiteral x)
          _ ≤ Text.maxU64 := by decide
      have hvalue := value_realLiteral_le hx fun hexponent =>
        not_lt.mp fun hlt => hgreat ⟨hexponent, hlt⟩
      obtain ⟨y, hy⟩ := Literal.exists_real hfits decimalValue_whole_ne_zero hvalue
      exact ⟨_, hy⟩
  obtain ⟨n, hn⟩ := hreal
  obtain ⟨y, rfl, hy⟩ := Literal.isFinite_real hn
  refine ⟨y, ?_, hy⟩
  have hwhole : ¬ ((realLiteral x).fraction.isEmpty = true ∧
      (realLiteral x).exponent.isNone = true ∧
      decimalValue (realLiteral x).whole ≤ Text.maxU64) := by
    rintro ⟨hfraction, hexponent, -⟩
    rcases realLiteral_not_whole x with hne | hne
    · exact hne (List.isEmpty_iff.mp hfraction)
    · exact hne (Option.isNone_iff_eq_none.mp hexponent)
  rw [Literal.number]
  dsimp only
  rw [if_neg hwhole, hn]

end

/-- The double that is read from the text of `x`. -/
def reread (x : Binary64) : Binary64 :=
  match parseAs readReal x.text with
  | .ok y => y
  | .error _ => x

/-- The number that is read from the text of a number. -/
def Number.reread : Number → Number
  | .whole n => .whole n
  | .real x => .real (Json.reread x)

theorem Literal.starts_chars {lit : Literal} (h : lit.Proper) :
    ∃ c cs, lit.chars = c :: cs ∧ (c = '-' ∨ isDigit c) := by
  obtain ⟨d, digits, hdigits⟩ := List.exists_cons_of_ne_nil h.nonempty
  unfold chars
  split
  · exact ⟨_, _, rfl, .inl rfl⟩
  · rw [hdigits]
    exact ⟨d, _, rfl, .inr (h.whole d (by rw [hdigits]; exact List.mem_cons_self))⟩

/-- What is read from the text of a double is what its literal stands for. -/
theorem reads_of_number {x y : Binary64} (h : (realLiteral x).number = .ok (.real y)) :
    (Number.real x).ReadsAs (.real y) ∧ reread x = y := by
  have hreads : (Number.real x).ReadsAs (.real y) := by
    constructor
    · rw [Number.chars, toList_text]
      exact Literal.starts_chars proper_realLiteral
    · intro rest hrest
      rw [Number.chars, toList_text, scanNumber, scanLiteral_chars proper_realLiteral hrest]
      dsimp only
      rw [h]
  have htext : x.text = (Value.number (.real x)).pretty := by
    simp [Value.pretty, Value.prettyChars, Value.scalarChars, Number.chars]
  have hvalue : (Value.number (.real x)).ReadsAs fun _ => .real y := hreads
  refine ⟨hreads, ?_⟩
  rw [reread, htext, parseAs_pretty hvalue]
  rfl

/-- A finite double has a text that is read as a finite double. -/
theorem reread_spec {x : Binary64} (hx : x.IsFinite) :
    (Number.real x).ReadsAs (.real (reread x)) ∧ (reread x).IsFinite := by
  obtain ⟨y, hnumber, hy⟩ := exists_number_realLiteral hx
  obtain ⟨hreads, hreread⟩ := reads_of_number hnumber
  rw [hreread]
  exact ⟨hreads, hy⟩

end Jobflow.Json
