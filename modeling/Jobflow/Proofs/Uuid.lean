import Jobflow.Proofs.Success
import Jobflow.Proofs.Text.Digits
import Jobflow.Proofs.Text.Pieces
import Jobflow.Uuid
import Mathlib.Data.List.Induction

/-!
Identifiers that are written and read again. An identifier of 128 bits is read back from its
text, and every identifier that is read has 128 bits.
-/

namespace Jobflow

namespace Uuid

open Text (hexDigit hexDigits hexValue?)

/-- An identifier of 128 bits. -/
def Fits (id : Uuid) : Prop := id.number < 2 ^ 128

/-! ### Hexadecimal numbers -/

theorem hexNumber_append (cs : List Char) (c : Char) :
    hexNumber (cs ++ [c]) = (do return 16 * (← hexNumber cs) + (← hexValue? c)) := by
  simp [hexNumber]

theorem hexNumber_hexDigits (width n : Nat) :
    hexNumber (hexDigits width n) = some (n % 16 ^ width) := by
  induction width generalizing n with
  | zero => simp [hexDigits, hexNumber, Nat.mod_one]
  | succ width ih =>
    have hvalue : 16 * (n / 16 % 16 ^ width) + n % 16 = n % 16 ^ (width + 1) := by
      rw [Nat.pow_succ', Nat.mod_mul]
      omega
    rw [hexDigits, hexNumber_append, ih, Text.hexValue?_hexDigit (Nat.mod_lt n (by decide))]
    exact congrArg some hvalue

theorem exists_hexDigit {width n : Nat} {c : Char} (h : c ∈ hexDigits width n) :
    ∃ k < 16, c = hexDigit k := by
  induction width generalizing n with
  | zero => cases h
  | succ width ih =>
    rw [hexDigits, List.mem_append, List.mem_singleton] at h
    rcases h with hfront | hlast
    · exact ih hfront
    · exact ⟨n % 16, Nat.mod_lt n (by decide), hlast⟩

theorem hexDigit_ne_mark {k : Nat} (h : k < 16) :
    hexDigit k ≠ '-' ∧ hexDigit k ≠ '\x7b' ∧ hexDigit k ≠ 'u' := by
  have hall : ∀ k < 16, hexDigit k ≠ '-' ∧ hexDigit k ≠ '\x7b' ∧ hexDigit k ≠ 'u' := by decide
  exact hall k h

theorem hexNumber_lt {cs : List Char} {n : Nat} (h : hexNumber cs = some n) :
    n < 16 ^ cs.length := by
  induction cs using List.reverseRecOn generalizing n with
  | nil =>
    obtain rfl := Option.some.inj h
    decide
  | append_singleton cs c ih =>
    rw [hexNumber_append] at h
    simp only [Option.bind_eq_bind, Option.bind_eq_some_iff, Option.pure_def,
      Option.some.injEq] at h
    obtain ⟨front, hfront, last, hlast, rfl⟩ := h
    have hfrontBound := ih hfront
    have hlastBound : last < 16 := Text.hexValue?_lt hlast
    rw [List.length_append, List.length_singleton, Nat.pow_succ]
    omega

/-! ### Texts -/

/-- The text of an identifier is made of its digits, in five groups. -/
theorem toList_text (id : Uuid) :
    ∃ a b c d e : List Char, hexDigits 32 id.number = a ++ (b ++ (c ++ (d ++ e))) ∧
      [a, b, c, d, e].map List.length = groupLengths ∧
      id.text.toList = a ++ '-' :: (b ++ '-' :: (c ++ '-' :: (d ++ '-' :: e))) := by
  obtain ⟨ds, hds⟩ : ∃ ds, ds = hexDigits 32 id.number := ⟨_, rfl⟩
  have hlength : ds.length = 32 := hds ▸ Text.length_hexDigits 32 id.number
  have hfour : ∀ k, (ds.drop k).take 4 ++ ds.drop (k + 4) = ds.drop k := by
    intro k
    rw [← List.drop_drop, List.take_append_drop]
  refine ⟨ds.take 8, (ds.drop 8).take 4, (ds.drop 12).take 4, (ds.drop 16).take 4, ds.drop 20,
    ?_, ?_, ?_⟩
  · rw [← hds, hfour 16, hfour 12, hfour 8, List.take_append_drop]
  · simp [groupLengths, hlength]
  · simp [text, ← hds]

theorem unwrap_of_hexDigit {k : Nat} (hk : k < 16) (rest : List Char) :
    unwrap (hexDigit k :: rest) = none := by
  obtain ⟨-, hbrace, hu⟩ := hexDigit_ne_mark hk
  have hurn : urnMark.isPrefixOf (hexDigit k :: rest) = false := by
    have hmark : urnMark = 'u' :: "rn:uuid:".toList := by decide
    simp [hmark, List.isPrefixOf, Ne.symm hu]
  unfold unwrap
  split
  · next heq =>
    exact absurd (List.cons.inj heq).1 hbrace
  · rw [hurn]
    rfl

/-- An identifier of 128 bits is read back from its text. -/
theorem parse_text {id : Uuid} (h : id.Fits) : parse id.text = .ok id := by
  obtain ⟨a, b, c, d, e, hdigits, hlengths, htext⟩ := toList_text id
  have hmark : ∀ x ∈ a ++ (b ++ (c ++ (d ++ e))), (x == '-') = false := by
    intro x hx
    obtain ⟨k, hk, rfl⟩ := exists_hexDigit (hdigits ▸ hx)
    simpa using (hexDigit_ne_mark hk).1
  have hgroups : Text.splitBy (· == '-') id.text.toList = [a, b, c, d, e] := by
    simp only [List.mem_append, or_imp, forall_and] at hmark
    obtain ⟨ha, hb, hc, hd, he⟩ := hmark
    rw [htext, Text.splitBy_append_cons ha rfl, Text.splitBy_append_cons hb rfl,
      Text.splitBy_append_cons hc rfl, Text.splitBy_append_cons hd rfl, Text.splitBy_of_none he]
  have hnumber : hexNumber [a, b, c, d, e].flatten = some id.number := by
    have hflat : [a, b, c, d, e].flatten = hexDigits 32 id.number := by simp [hdigits]
    rw [hflat, hexNumber_hexDigits]
    exact congrArg some (Nat.mod_eq_of_lt h)
  have hread : parseGroups id.text.toList = some id := by
    simp only [parseGroups, hgroups, if_pos hlengths, hnumber]
    rfl
  have hplain : unwrap id.text.toList = none := by
    cases a with
    | nil => simp [groupLengths] at hlengths
    | cons x a =>
      obtain ⟨k, hk, rfl⟩ :=
        exists_hexDigit (c := x) (hdigits ▸ List.mem_append_left _ List.mem_cons_self)
      rw [htext]
      exact unwrap_of_hexDigit hk _
  have hlength : id.text.toList.length ≠ 32 := by
    simp only [groupLengths, List.map_cons, List.map_nil, List.cons.injEq, and_true] at hlengths
    rw [htext]
    simp only [List.length_append, List.length_cons]
    omega
  unfold parse
  simp only [if_neg hlength, hplain, Option.getD_none, hread]

/-- An identifier that was read has 128 bits. -/
theorem fits_of_parse {s : String} {id : Uuid} (h : parse s = .ok id) : id.Fits := by
  have hnumber : ∀ cs : List Char, cs.length = 32 →
      (hexNumber cs).map Uuid.mk = some id → id.Fits := by
    intro cs hlength hcs
    obtain ⟨n, hn, rfl⟩ := Option.map_eq_some_iff.mp hcs
    have hbound := hexNumber_lt hn
    rw [hlength] at hbound
    exact hbound
  unfold parse at h
  dsimp only at h
  split at h
  · next found hfound =>
    obtain rfl := Except.ok.inj h
    split at hfound
    · next hlength => exact hnumber _ hlength hfound
    · unfold parseGroups at hfound
      dsimp only at hfound
      split at hfound
      · next hgroups =>
        refine hnumber _ ?_ hfound
        rw [List.length_flatten, hgroups]
        rfl
      · cases hfound
  · cases h

end Uuid

end Jobflow
