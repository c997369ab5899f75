import Jobflow.Text.Basic
import Mathlib.Data.List.DropRight

/-!
What is left of a text without the blanks around it. A trimmed text is what stands between two
blocks of blanks and has no blank at either end, and that determines it; small letters are blank
where the letters they come from are.
-/

namespace Jobflow.Text

/-! ### The end of a list -/

section

variable {α : Type} {p : α → Bool} {xs kept tail : List α}

theorem dropEndWhile_eq_rdropWhile (p : α → Bool) (xs : List α) :
    dropEndWhile p xs = xs.rdropWhile p := by
  induction xs with
  | nil => rfl
  | cons x xs ih =>
    have hcons : dropEndWhile p (x :: xs) =
        if (dropEndWhile p xs).isEmpty && p x then [] else x :: dropEndWhile p xs := rfl
    rw [hcons, ih, List.rdropWhile, List.rdropWhile, List.reverse_cons, List.dropWhile_append]
    by_cases hleft : (xs.reverse.dropWhile p).isEmpty = true
    · rw [if_pos hleft, List.isEmpty_iff.mp hleft]
      cases hx : p x <;> simp [hx]
    · have hrest : (xs.reverse.dropWhile p).reverse.isEmpty = false := by
        rw [List.isEmpty_reverse]
        exact eq_false_of_ne_true hleft
      rw [if_neg hleft, hrest, List.reverse_append]
      rfl

theorem exists_dropEndWhile (p : α → Bool) (xs : List α) :
    ∃ tail, xs = dropEndWhile p xs ++ tail ∧ ∀ x ∈ tail, p x = true :=
  ⟨xs.rtakeWhile p, by rw [dropEndWhile_eq_rdropWhile, List.rdropWhile_append_rtakeWhile],
    fun _ => List.mem_rtakeWhile_imp⟩

theorem dropEndWhile_sublist (p : α → Bool) (xs : List α) : (dropEndWhile p xs).Sublist xs := by
  rw [dropEndWhile_eq_rdropWhile]
  exact (List.rdropWhile_prefix p xs).sublist

theorem last_dropEndWhile {x : α} (h : (dropEndWhile p xs).getLast? = some x) : p x = false := by
  rw [dropEndWhile_eq_rdropWhile] at h
  obtain ⟨hne, rfl⟩ := List.mem_getLast?_eq_getLast h
  simpa using List.rdropWhile_last_not p xs hne

theorem dropEndWhile_eq_self (h : ∀ x, xs.getLast? = some x → p x = false) :
    dropEndWhile p xs = xs := by
  rw [dropEndWhile_eq_rdropWhile, List.rdropWhile_eq_self_iff]
  intro hne
  simpa using h _ (List.getLast?_eq_getLast_of_ne_nil hne)

/-- What is left at the front of a list that ends in elements with `p` and has none before them. -/
theorem dropEndWhile_append (hkept : ∀ x, kept.getLast? = some x → p x = false)
    (htail : ∀ x ∈ tail, p x = true) : dropEndWhile p (kept ++ tail) = kept := by
  rw [dropEndWhile_eq_rdropWhile, List.rdropWhile, List.reverse_append,
    List.dropWhile_append_of_pos (by simpa using htail), ← List.rdropWhile,
    ← dropEndWhile_eq_rdropWhile, dropEndWhile_eq_self hkept]

theorem dropEndWhile_map {β : Type} (f : β → α) (ys : List β) :
    dropEndWhile p (ys.map f) = (dropEndWhile (p ∘ f) ys).map f := by
  simp only [dropEndWhile_eq_rdropWhile, List.rdropWhile, ← List.map_reverse, List.dropWhile_map]

end

/-! ### Trimmed texts -/

/-- No blank stands at either end. -/
structure Trimmed (cs : List Char) : Prop where
  first : ∀ c, cs.head? = some c → isBlankChar c = false
  last : ∀ c, cs.getLast? = some c → isBlankChar c = false

theorem exists_trimChars (cs : List Char) :
    ∃ before after, cs = before ++ (trimChars cs ++ after) ∧
      (∀ c ∈ before, isBlankChar c = true) ∧ ∀ c ∈ after, isBlankChar c = true := by
  obtain ⟨after, hafter, hblank⟩ := exists_dropEndWhile isBlankChar (cs.dropWhile isBlankChar)
  refine ⟨cs.takeWhile isBlankChar, after, ?_, fun _ => List.mem_takeWhile_imp, hblank⟩
  rw [trimChars, ← hafter, List.takeWhile_append_dropWhile]

theorem trimChars_sublist (cs : List Char) : (trimChars cs).Sublist cs :=
  (dropEndWhile_sublist ..).trans (List.dropWhile_sublist _)

theorem Trimmed.trimChars_append {cs before after : List Char} (h : Trimmed cs)
    (hbefore : ∀ c ∈ before, isBlankChar c = true) (hafter : ∀ c ∈ after, isBlankChar c = true)
    (hne : cs ≠ []) : trimChars (before ++ (cs ++ after)) = cs := by
  obtain ⟨c, rest, rfl⟩ := List.exists_cons_of_ne_nil hne
  have hfirst : isBlankChar c = false := h.first c rfl
  rw [trimChars, List.dropWhile_append_of_pos hbefore, List.cons_append,
    List.dropWhile_cons_of_neg (by simp [hfirst]), ← List.cons_append]
  exact dropEndWhile_append h.last hafter

theorem trimmed_trimChars (cs : List Char) : Trimmed (trimChars cs) where
  first c hc := by
    obtain ⟨after, hafter, -⟩ := exists_dropEndWhile isBlankChar (cs.dropWhile isBlankChar)
    have hhead : (cs.dropWhile isBlankChar).head? = some c := by
      rw [hafter, List.head?_append, ← trimChars, hc]
      rfl
    simpa [hhead] using List.head?_dropWhile_not isBlankChar cs
  last _ hc := last_dropEndWhile hc

theorem Trimmed.trimChars_eq {cs : List Char} (h : Trimmed cs) : trimChars cs = cs := by
  cases cs with
  | nil => rfl
  | cons c rest =>
    have hfirst : isBlankChar c = false := h.first c rfl
    rw [trimChars, List.dropWhile_cons_of_neg (by simp [hfirst])]
    exact dropEndWhile_eq_self h.last

@[simp] theorem trim_trim (s : String) : trim (trim s) = trim s := by
  simp [trim, (trimmed_trimChars s.toList).trimChars_eq]

/-! ### Small letters -/

theorem toNat_lowerChar (c : Char) : (lowerChar c).toNat =
    if 65 ≤ c.toNat ∧ c.toNat ≤ 90 then c.toNat + 32 else c.toNat := by
  have hcapital : ('A' ≤ c ∧ c ≤ 'Z') ↔ (65 ≤ c.toNat ∧ c.toNat ≤ 90) := Iff.rfl
  unfold lowerChar
  rw [if_congr hcapital rfl rfl]
  split
  · next h =>
    rw [Char.ofNat, dif_pos (.inl (by omega))]
    rfl
  · rfl

@[simp] theorem lowerChar_lowerChar (c : Char) : lowerChar (lowerChar c) = lowerChar c := by
  apply Char.toNat_inj.mp
  rw [toNat_lowerChar (lowerChar c), toNat_lowerChar c]
  split_ifs <;> omega

@[simp] theorem isBlankChar_lowerChar (c : Char) : isBlankChar (lowerChar c) = isBlankChar c := by
  rw [Bool.eq_iff_iff]
  simp only [isBlankChar, toNat_lowerChar, Bool.or_eq_true, Bool.and_eq_true, decide_eq_true_eq,
    beq_iff_eq]
  split <;> omega

/-- A character before the letters is the small form of itself only. -/
theorem lowerChar_eq_iff {c d : Char} (hd : d.toNat < 65) : lowerChar c = d ↔ c = d := by
  rw [← Char.toNat_inj, ← Char.toNat_inj, toNat_lowerChar]
  split <;> omega

@[simp] theorem lower_lower (s : String) : lower (lower s) = lower s := by
  simp [lower, Function.comp_def]

theorem sameIgnoringCase_iff {s t : String} : sameIgnoringCase s t = true ↔ lower s = lower t := by
  rw [sameIgnoringCase, beq_iff_eq, lower, lower, String.ofList_inj]

@[simp] theorem sameIgnoringCase_lower (s t : String) :
    sameIgnoringCase s (lower t) = sameIgnoringCase s t := by
  rw [Bool.eq_iff_iff, sameIgnoringCase_iff, sameIgnoringCase_iff, lower_lower]

theorem trimChars_lower (cs : List Char) :
    trimChars (cs.map lowerChar) = (trimChars cs).map lowerChar := by
  have hblank : isBlankChar ∘ lowerChar = isBlankChar := funext isBlankChar_lowerChar
  rw [trimChars, trimChars, List.dropWhile_map, dropEndWhile_map, hblank]

end Jobflow.Text
