import Jobflow.Proofs.Success
import Jobflow.Proofs.Text.Digits
import Jobflow.Proofs.Time.Calendar
import Jobflow.Time.Timestamp
import Mathlib.Tactic.Ring

/-!
Timestamps that are written and read again. Every instant in the range of the calendar is
read back from its text; only a leap second that does not end a minute is read as the
second after it.
-/

namespace Jobflow.Time

open Text (EndsDigits decimalValue isDigit padded takeWhile_digits)

/-! ### Reading parts -/

theorem number_digits {width : Nat} {ds rest : List Char} (hds : ∀ c ∈ ds, isDigit c)
    (hne : ds ≠ []) (hle : ds.length ≤ width) (hend : ds.length = width ∨ EndsDigits rest) :
    number width (ds ++ rest) = .ok (decimalValue ds, rest) := by
  have htaken : ((ds ++ rest).takeWhile isDigit).take width = ds := by
    rcases hend with hlength | hrest
    · rw [List.takeWhile_append_of_pos hds, ← hlength, List.take_left]
    · rw [takeWhile_digits hds hrest, List.take_of_length_le hle]
  have hempty : ds.isEmpty = false := by simp [hne]
  unfold number
  split
  · next heq => simp [hne] at heq
  · simp only [htaken, hempty, Bool.false_eq_true, if_false, List.drop_left]

theorem skipBlanks_cons {c : Char} (h : Text.isBlankChar c = false) (rest : List Char) :
    skipBlanks (c :: rest) = c :: rest := by
  simp [skipBlanks, h]

theorem skipBlanks_digits {ds : List Char} (hds : ∀ c ∈ ds, isDigit c) (hne : ds ≠ [])
    (rest : List Char) : skipBlanks (ds ++ rest) = ds ++ rest := by
  cases ds with
  | nil => exact absurd rfl hne
  | cons c ds =>
    exact skipBlanks_cons (Text.not_isBlankChar_of_isDigit (hds c List.mem_cons_self)) _

theorem bounded_padded {low high n : Nat} (hlow : low ≤ n) (hhigh : n ≤ high) (hn : n < 100)
    (rest : List Char) :
    bounded low high ((padded 2 n).toList ++ rest) = .ok (n, rest) := by
  have hlength : (padded 2 n).toList.length = 2 := Text.length_padded (by decide) hn
  unfold bounded
  rw [skipBlanks_digits Text.isDigit_of_mem_padded (Text.padded_ne_nil 2 n),
    number_digits Text.isDigit_of_mem_padded (Text.padded_ne_nil 2 n) (by omega) (.inl hlength),
    Text.decimalValue_padded]
  simp [hlow, hhigh, bind, Except.bind, pure, Except.pure]

theorem separator_cons {c : Char} (h : Text.isBlankChar c = false) (rest : List Char) :
    separator c (c :: rest) = .ok rest := by
  simp [separator, skipBlanks_cons h]

/-! ### Years -/

theorem longNumber_digits {ds rest : List Char} (hds : ∀ c ∈ ds, isDigit c) (hne : ds ≠ [])
    (hrest : EndsDigits rest) (hbound : decimalValue ds < Nat.pow 2 63) :
    longNumber (ds ++ rest) = .ok (decimalValue ds, rest) := by
  have hle : ds.length ≤ (ds ++ rest).length := by simp
  unfold longNumber
  rw [number_digits hds hne hle (.inr hrest)]
  simp [hbound, bind, Except.bind, pure, Except.pure]

theorem year_digits {ds rest : List Char} (hds : ∀ c ∈ ds, isDigit c) (hlength : ds.length = 4) :
    year (ds ++ rest) = .ok ((decimalValue ds : Int), rest) := by
  have hne : ds ≠ [] := by
    rintro rfl
    simp at hlength
  have hbound : decimalValue ds < 10 ^ 4 := hlength ▸ Text.decimalValue_lt hds
  have hhead : ∀ c, (ds ++ rest).head? = some c → isDigit c := by
    intro c hc
    cases ds with
    | nil => exact absurd rfl hne
    | cons d ds =>
      obtain rfl := Option.some.inj hc
      exact hds d List.mem_cons_self
  unfold year
  rw [skipBlanks_digits hds hne]
  split
  · next heq => exact absurd (hhead '-' (by rw [heq]; rfl)) (by decide)
  · next heq => exact absurd (hhead '+' (by rw [heq]; rfl)) (by decide)
  · rw [number_digits hds hne (Nat.le_of_eq hlength) (.inl hlength)]
    have hrange : -2147483648 ≤ (decimalValue ds : Int) ∧ (decimalValue ds : Int) ≤ 2147483647 := by
      omega
    simp [bind, Except.bind, pure, Except.pure, hrange]

theorem year_signed {sign : Char} {ds rest : List Char} (hsign : sign = '-' ∨ sign = '+')
    (hds : ∀ c ∈ ds, isDigit c) (hne : ds ≠ []) (hrest : EndsDigits rest)
    (hbound : decimalValue ds ≤ 2147483647) :
    year (sign :: (ds ++ rest)) =
      .ok (if sign = '-' then -(decimalValue ds : Int) else decimalValue ds, rest) := by
  have hblank : Text.isBlankChar sign = false := by rcases hsign with rfl | rfl <;> decide
  have hlimit : 2147483647 < Nat.pow 2 63 := by decide
  have hlong := longNumber_digits hds hne hrest (Nat.lt_of_le_of_lt hbound hlimit)
  unfold year
  rw [skipBlanks_cons hblank]
  rcases hsign with rfl | rfl
  · have hrange : -2147483648 ≤ -(decimalValue ds : Int) ∧
        -(decimalValue ds : Int) ≤ 2147483647 := by
      omega
    simp [hlong, bind, Except.bind, pure, Except.pure, hrange]
  · have hrange : -2147483648 ≤ (decimalValue ds : Int) ∧ (decimalValue ds : Int) ≤ 2147483647 := by
      omega
    simp [hlong, bind, Except.bind, pure, Except.pure, hrange]

/-- A year is read back, with the hyphen after it still to come. -/
theorem year_yearText {y : Int} (hy : -300000 ≤ y ∧ y ≤ 300000) (rest : List Char) :
    year ((yearText y).toList ++ '-' :: rest) = .ok (y, '-' :: rest) := by
  have hends : EndsDigits ('-' :: rest) := by
    intro c hc
    obtain rfl := Option.some.inj hc
    decide
  unfold yearText
  split
  · next hfour =>
    have hlength : (padded 4 y.toNat).toList.length = 4 :=
      Text.length_padded (by decide) (by omega)
    rw [year_digits Text.isDigit_of_mem_padded hlength, Text.decimalValue_padded,
      Int.toNat_of_nonneg hfour.1]
  · next hother =>
    have hbound : decimalValue (padded 4 y.natAbs).toList ≤ 2147483647 := by
      rw [Text.decimalValue_padded]
      omega
    by_cases hneg : y < 0
    · have hread := year_signed (.inl rfl) Text.isDigit_of_mem_padded
        (Text.padded_ne_nil 4 y.natAbs) hends hbound
      rw [Text.decimalValue_padded, if_pos rfl] at hread
      have habs : -(y.natAbs : Int) = y := by omega
      rw [habs] at hread
      simpa [hneg] using hread
    · have hread := year_signed (.inr rfl) Text.isDigit_of_mem_padded
        (Text.padded_ne_nil 4 y.natAbs) hends hbound
      rw [Text.decimalValue_padded, if_neg (by decide)] at hread
      have habs : (y.natAbs : Int) = y := by omega
      rw [habs] at hread
      simpa [hneg] using hread

/-! ### Fractions -/

/-- Decimals of a second on `count` places are read back, whatever the mark after them. -/
theorem fraction_padded (count : Nat) {n : Nat} (hcount : 0 < count ∧ count ≤ 9)
    (hn : n < 10 ^ count) (mark : Char) (hmark : isDigit mark = false) (rest : List Char) :
    fraction ('.' :: ((padded count n).toList ++ mark :: rest)) =
      .ok (n * 10 ^ (9 - count), mark :: rest) := by
  have hlength : (padded count n).toList.length = count := Text.length_padded hcount.1 hn
  have hends : EndsDigits (mark :: rest) := by
    intro c hc
    obtain rfl := Option.some.inj hc
    exact hmark
  have hplaces : ((padded count n).toList ++ mark :: rest).length - (mark :: rest).length =
      count := by
    rw [List.length_append, hlength]
    omega
  have hread := number_digits Text.isDigit_of_mem_padded (Text.padded_ne_nil count n)
    (Nat.le_trans (Nat.le_of_eq hlength) hcount.2) (.inr hends)
  rw [Text.decimalValue_padded] at hread
  simp only [fraction, hread, bind, Except.bind, pure, Except.pure, hplaces]
  simp [hmark]

theorem fraction_fractionText {nanos : Nat} (h : nanos < 1000000000) :
    fraction ((fractionText nanos).toList ++ ['Z']) = .ok (nanos, ['Z']) := by
  unfold fractionText
  split
  · next hzero => simp [fraction, hzero]
  · split
    · next hmillis =>
      have hread := fraction_padded 3 (by decide) (n := nanos / 1000000) (by omega) 'Z'
        (by decide) []
      have hvalue : nanos / 1000000 * 10 ^ (9 - 3) = nanos := by omega
      rw [hvalue] at hread
      simpa using hread
    · split
      · next hmicros =>
        have hread := fraction_padded 6 (by decide) (n := nanos / 1000) (by omega) 'Z'
          (by decide) []
        have hvalue : nanos / 1000 * 10 ^ (9 - 6) = nanos := by omega
        rw [hvalue] at hread
        simpa using hread
      · have hread := fraction_padded 9 (by decide) (n := nanos) (by omega) 'Z'
          (by decide) []
        simpa using hread

/-! ### Instants -/

namespace Instant

/-- An instant on one of the days that can be named. -/
structure InRange (t : Instant) : Prop where
  day : firstDay ≤ t.seconds.fdiv 86400 ∧ t.seconds.fdiv 86400 ≤ lastDay
  nanos : t.nanos < 2000000000

/-- The instant that is read back from the text of another: a leap second that does not end
a minute is shown as the second after it. -/
def written (t : Instant) : Instant :=
  if 1000000000 ≤ t.nanos ∧ t.seconds % 60 ≠ 59 then ⟨t.seconds + 1, t.nanos - 1000000000⟩ else t

/-- An instant in the years 0 to 9999 that is no leap second. -/
structure Plain (t : Instant) : Prop where
  year : 0 ≤ t.split.1.year ∧ t.split.1.year ≤ 9999
  nanos : t.nanos < 1000000000

theorem Plain.inRange {t : Instant} (h : t.Plain) : t.InRange := by
  obtain ⟨hyear, hnanos⟩ := h
  have hfirst : firstDay < -366 * (8030 + 1) := by decide
  have hlast : 366 * (8030 + 1) < lastDay := by decide
  have hday := bounds_of_year_ofDayNumber 8030 (n := t.seconds.fdiv 86400)
    ⟨by simp only [split] at hyear; omega, by simp only [split] at hyear; omega⟩
  exact ⟨⟨by omega, by omega⟩, by omega⟩

theorem written_eq_self {t : Instant} (h : t.nanos < 1000000000) : t.written = t := by
  rw [written, if_neg (by omega)]

end Instant

theorem dateTimeMark_cons (rest : List Char) : dateTimeMark ('T' :: rest) = .ok rest := rfl

theorem offset_universal : offset ['Z'] = .ok (0, []) := by
  decide

theorem toList_text {t : Instant} {date : Date} {second : Nat} (hsplit : t.split = (date, second)) :
    t.text.toList =
      (yearText date.year).toList ++ '-' :: ((padded 2 date.month).toList ++
      '-' :: ((padded 2 date.day).toList ++ 'T' :: ((padded 2 (second / 3600)).toList ++
      ':' :: ((padded 2 (second / 60 % 60)).toList ++
      ':' :: ((padded 2 (second % 60 + if 1000000000 ≤ t.nanos then 1 else 0)).toList ++
      ((fractionText (if 1000000000 ≤ t.nanos then t.nanos - 1000000000 else t.nanos)).toList ++
      ['Z'])))))) := by
  simp [Instant.text, Instant.format, hsplit]

/-- The texts of the parts of a timestamp are read one after the other. -/
theorem parseChars_parts {y : Int} {month day hour minute shown nanos : Nat}
    (hy : -300000 ≤ y ∧ y ≤ 300000) (hmonth : 1 ≤ month ∧ month ≤ 12) (hday : 1 ≤ day ∧ day ≤ 31)
    (hhour : hour ≤ 23) (hminute : minute ≤ 59) (hshown : shown ≤ 60) (hnanos : nanos < 1000000000)
    (hvalid : (Date.mk y month day).isValid)
    (hrange : firstDay ≤ (Date.mk y month day).dayNumber ∧
      (Date.mk y month day).dayNumber ≤ lastDay) :
    parseChars ((yearText y).toList ++ '-' :: ((padded 2 month).toList ++
      '-' :: ((padded 2 day).toList ++ 'T' :: ((padded 2 hour).toList ++
      ':' :: ((padded 2 minute).toList ++ ':' :: ((padded 2 shown).toList ++
      ((fractionText nanos).toList ++ ['Z']))))))) =
      .ok ⟨(Date.mk y month day).dayNumber * 86400 + hour * 3600 + minute * 60 +
          ((if shown = 60 then 59 else shown : Nat) : Int),
        if shown = 60 then nanos + 1000000000 else nanos⟩ := by
  have hhyphen := separator_cons (c := '-') (by decide)
  have hcolon := separator_cons (c := ':') (by decide)
  obtain ⟨n, hn⟩ : ∃ n, n = (Date.mk y month day).dayNumber := ⟨_, rfl⟩
  obtain ⟨second, hsecond⟩ : ∃ second, second = if shown = 60 then 59 else shown := ⟨_, rfl⟩
  have hminuteEnd : second ≤ 59 := by
    split at hsecond <;> omega
  have hsame : (n * 86400 + hour * 3600 + minute * 60 + second : Int).fdiv 86400 = n := by
    rw [Int.fdiv_eq_ediv_of_nonneg _ (by decide)]
    omega
  unfold parseChars
  simp only [bind, Except.bind, year_yearText hy, hhyphen, hcolon, dateTimeMark_cons,
    bounded_padded hmonth.1 hmonth.2 (show month < 100 by omega),
    bounded_padded hday.1 hday.2 (show day < 100 by omega),
    bounded_padded (Nat.zero_le hour) hhour (show hour < 100 by omega),
    bounded_padded (Nat.zero_le minute) hminute (show minute < 100 by omega),
    bounded_padded (Nat.zero_le shown) hshown (show shown < 100 by omega),
    fraction_fractionText hnanos, offset_universal]
  rw [← hn] at hrange ⊢
  have hempty : (!(skipBlanks []).isEmpty) = false := rfl
  have hnamed : (!(Date.mk y month day).isValid || decide (n < firstDay) || decide (lastDay < n)) =
      false := by
    simpa [hvalid] using hrange
  have hpossible : (decide (n < firstDay) || decide (lastDay < n)) = false := by
    simpa using hrange
  simp only [Int.sub_zero, ← hsecond, hsame, hempty, hnamed, hpossible]
  rfl

/-- What is read from the seconds and the fraction that are shown for an instant. -/
theorem read_shown {t : Instant} {n : Int} {second : Nat}
    (hseconds : t.seconds = n * 86400 + second) (hnanos : t.nanos < 2000000000) :
    let shown := second % 60 + if 1000000000 ≤ t.nanos then 1 else 0
    let nanos := if 1000000000 ≤ t.nanos then t.nanos - 1000000000 else t.nanos
    (⟨n * 86400 + (second / 3600 : Nat) * 3600 + (second / 60 % 60 : Nat) * 60 +
        ((if shown = 60 then 59 else shown : Nat) : Int),
      if shown = 60 then nanos + 1000000000 else nanos⟩ : Instant) = t.written := by
  have hshown : t.seconds % 60 = (second % 60 : Nat) := by omega
  have hlast : second % 60 < 60 := Nat.mod_lt _ (by decide)
  obtain ⟨seconds, nanos⟩ := t
  dsimp only at hseconds hnanos hshown ⊢
  rcases Nat.lt_or_ge nanos 1000000000 with hplain | hleap
  · have hshort : ¬ second % 60 + 0 = 60 := by omega
    rw [Instant.written_eq_self hplain, if_neg (Nat.not_le.mpr hplain),
      if_neg (Nat.not_le.mpr hplain), if_neg hshort, if_neg hshort, Instant.mk.injEq]
    omega
  · rw [if_pos hleap, if_pos hleap, Instant.written]
    by_cases hends : second % 60 = 59
    · have hsame : ¬ (1000000000 ≤ nanos ∧ seconds % 60 ≠ 59) := by omega
      have hsixty : second % 60 + 1 = 60 := by omega
      rw [if_neg hsame, if_pos hsixty, if_pos hsixty, Instant.mk.injEq]
      omega
    · have hafter : 1000000000 ≤ nanos ∧ seconds % 60 ≠ 59 := by omega
      have hsixty : ¬ second % 60 + 1 = 60 := by omega
      rw [if_pos hafter, if_neg hsixty, if_neg hsixty, Instant.mk.injEq]
      dsimp only
      omega

/-- An instant that can be named is read back from its text. -/
theorem parse_text {t : Instant} (ht : t.InRange) : Instant.parse t.text = .ok t.written := by
  obtain ⟨n, hn⟩ : ∃ n, n = t.seconds.fdiv 86400 := ⟨_, rfl⟩
  obtain ⟨second, hsecond⟩ : ∃ second, second = (t.seconds - n * 86400).toNat := ⟨_, rfl⟩
  obtain ⟨date, hdate⟩ : ∃ date, date = Date.ofDayNumber n := ⟨_, rfl⟩
  have hsplit : t.split = (date, second) := by
    rw [hdate, hsecond, hn]
    rfl
  have hseconds : t.seconds = n * 86400 + second ∧ second < 86400 := by
    rw [Int.fdiv_eq_ediv_of_nonneg _ (by decide)] at hn
    omega
  have hday := hn ▸ ht.day
  have hyear : -300000 ≤ date.year ∧ date.year ≤ 300000 := by
    have hfirst : -365 * 298000 ≤ firstDay := by decide
    have hlast : lastDay ≤ 365 * 298000 := by decide
    have hbounds := year_ofDayNumber_bounds 298000 (n := n) (by omega)
    rw [← hdate] at hbounds
    omega
  have hvalid : date.isValid := hdate ▸ isValid_ofDayNumber n
  have hnumber : date.dayNumber = n := hdate ▸ dayNumber_ofDayNumber n
  obtain ⟨hmonth, hmonthDay⟩ := bounds_of_isValid hvalid
  have hnanos := ht.nanos
  rw [Instant.parse, toList_text hsplit,
    parseChars_parts hyear hmonth hmonthDay (by omega) (by omega) (by split <;> omega)
      (by split <;> omega) hvalid (hnumber ▸ hday), hnumber]
  exact congrArg Except.ok (read_shown hseconds.1 hnanos)

/-! ### Instants that were read -/

theorem number_spec {width : Nat} {cs rest : List Char} {n : Nat}
    (h : number width cs = .ok (n, rest)) :
    ∃ ds, cs = ds ++ rest ∧ (∀ c ∈ ds, isDigit c) ∧ ds.length ≤ width ∧ n = decimalValue ds := by
  unfold number at h
  split at h
  · cases h
  · dsimp only at h
    split at h
    · cases h
    · simp only [Except.ok.injEq, Prod.mk.injEq] at h
      obtain ⟨rfl, rfl⟩ := h
      have hprefix : (cs.takeWhile isDigit).take width <+: cs :=
        (List.take_prefix _ _).trans (List.takeWhile_prefix _)
      refine ⟨_, (List.prefix_iff_eq_append.mp hprefix).symm, ?_, List.length_take_le _ _, rfl⟩
      intro c hc
      exact List.all_eq_true.mp List.all_takeWhile c (List.mem_of_mem_take hc)

theorem bounded_spec {low high n : Nat} {cs rest : List Char}
    (h : bounded low high cs = .ok (n, rest)) : low ≤ n ∧ n ≤ high := by
  obtain ⟨⟨m, after⟩, -, h⟩ := bind_eq_ok_iff.mp h
  dsimp only at h
  split at h
  · next hrange =>
    obtain ⟨rfl, -⟩ := Prod.mk.inj (Except.ok.inj h)
    exact hrange
  · cases h

theorem fraction_lt {cs rest : List Char} {nanos : Nat} (h : fraction cs = .ok (nanos, rest)) :
    nanos < 1000000000 := by
  unfold fraction at h
  split at h
  · next digits =>
    obtain ⟨⟨n, after⟩, hnumber, h⟩ := bind_eq_ok_iff.mp h
    obtain ⟨rfl, -⟩ := Prod.mk.inj (Except.ok.inj h)
    obtain ⟨ds, rfl, hds, hlength, rfl⟩ := number_spec hnumber
    have hcount : (ds ++ after).length - after.length = ds.length := by simp
    rw [hcount]
    calc decimalValue ds * 10 ^ (9 - ds.length)
        < 10 ^ ds.length * 10 ^ (9 - ds.length) :=
          Nat.mul_lt_mul_of_pos_right (Text.decimalValue_lt hds) (Nat.pow_pos (by decide))
      _ = 10 ^ 9 := by rw [← Nat.pow_add, Nat.add_sub_cancel' hlength]
  · obtain ⟨rfl, -⟩ := Prod.mk.inj (Except.ok.inj h)
    decide

/-- An offset is a number of minutes. -/
theorem offset_minutes {cs rest : List Char} {shift : Int} (h : offset cs = .ok (shift, rest)) :
    shift % 60 = 0 := by
  have hsigned : ∀ (sign hours minutes : Int), sign * (hours * 3600 + minutes * 60) % 60 = 0 := by
    intro sign hours minutes
    have hfactor : sign * (hours * 3600 + minutes * 60) = 60 * (sign * (hours * 60 + minutes)) := by
      ring
    omega
  unfold offset at h
  dsimp only at h
  split at h
  · obtain ⟨rfl, -⟩ := Prod.mk.inj (Except.ok.inj h)
    rfl
  · split at h <;> first
      | cases h; done
      | obtain ⟨rfl, -⟩ := Prod.mk.inj (Except.ok.inj h)
        rfl
      | obtain ⟨⟨hours, after⟩, -, h⟩ := bind_eq_ok_iff.mp h
        dsimp only at h
        split at h
        · cases h
        · cases h
        · obtain ⟨⟨minutes, after⟩, -, h⟩ := bind_eq_ok_iff.mp h
          obtain ⟨rfl, -⟩ := Prod.mk.inj (Except.ok.inj h)
          exact hsigned _ _ _

/-- An instant that was read can be named, and is written as it is. -/
theorem spec_of_parse {text : String} {t : Instant} (h : Instant.parse text = .ok t) :
    t.InRange ∧ t.written = t := by
  unfold Instant.parse parseChars at h
  obtain ⟨⟨y, cs⟩, -, h⟩ := bind_eq_ok_iff.mp h
  obtain ⟨cs, -, h⟩ := bind_eq_ok_iff.mp h
  obtain ⟨⟨m, cs⟩, -, h⟩ := bind_eq_ok_iff.mp h
  obtain ⟨cs, -, h⟩ := bind_eq_ok_iff.mp h
  obtain ⟨⟨d, cs⟩, -, h⟩ := bind_eq_ok_iff.mp h
  obtain ⟨cs, -, h⟩ := bind_eq_ok_iff.mp h
  obtain ⟨⟨hour, cs⟩, -, h⟩ := bind_eq_ok_iff.mp h
  obtain ⟨cs, -, h⟩ := bind_eq_ok_iff.mp h
  obtain ⟨⟨minute, cs⟩, -, h⟩ := bind_eq_ok_iff.mp h
  obtain ⟨cs, -, h⟩ := bind_eq_ok_iff.mp h
  obtain ⟨⟨second, cs⟩, hsecond, h⟩ := bind_eq_ok_iff.mp h
  obtain ⟨⟨nanos, cs⟩, hnanos, h⟩ := bind_eq_ok_iff.mp h
  obtain ⟨⟨shift, cs⟩, hshift, h⟩ := bind_eq_ok_iff.mp h
  have hminutes := offset_minutes hshift
  have hfraction := fraction_lt hnanos
  have hrange := bounded_spec hsecond
  obtain ⟨-, h⟩ := eq_ok_of_guard h
  obtain ⟨-, h⟩ := eq_ok_of_guard h
  obtain ⟨-, h⟩ := eq_ok_of_guard h
  obtain ⟨hday, h⟩ := eq_ok_of_guard h
  simp only [Bool.or_eq_true, decide_eq_true_eq, not_or, Int.not_lt] at hday
  obtain rfl := Except.ok.inj h
  refine ⟨⟨hday, ?_⟩, ?_⟩
  · dsimp only
    split <;> omega
  · rw [Instant.written, if_neg]
    dsimp only
    by_cases hleap : second = 60
    · rw [if_pos hleap, if_pos hleap]
      omega
    · rw [if_neg hleap, if_neg hleap]
      omega

end Jobflow.Time
