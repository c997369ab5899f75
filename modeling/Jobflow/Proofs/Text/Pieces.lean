import Jobflow.Text.Basic

/-!
Texts that are cut into pieces: at marks, and at the ends of lines. A text that is put together
from lines, each with its end, is cut into these lines again.
-/

namespace Jobflow.Text

variable {α : Type} {p : α → Bool} {mark : α} {xs : List α}

/-! ### Marks -/

theorem splitBy_of_none (h : ∀ x ∈ xs, p x = false) : splitBy p xs = [xs] := by
  induction xs with
  | nil => rfl
  | cons x rest ih =>
    simp [splitBy, h x List.mem_cons_self, ih fun y hy => h y (List.mem_cons_of_mem x hy)]

theorem exists_splitBy (p : α → Bool) (xs : List α) :
    ∃ piece pieces, splitBy p xs = piece :: pieces := by
  cases xs with
  | nil => exact ⟨_, _, rfl⟩
  | cons x rest =>
    rw [splitBy]
    split
    · exact ⟨_, _, rfl⟩
    · split <;> exact ⟨_, _, rfl⟩

theorem splitBy_append (hmark : p mark = true) (xs rest : List α) :
    splitBy p (xs ++ mark :: rest) = splitBy p xs ++ splitBy p rest := by
  induction xs with
  | nil => simp [splitBy, hmark]
  | cons x xs ih =>
    obtain ⟨piece, pieces, hpieces⟩ := exists_splitBy p xs
    rw [List.cons_append, splitBy, splitBy, ih, hpieces]
    split <;> rfl

theorem splitBy_append_cons (h : ∀ x ∈ xs, p x = false) (hmark : p mark = true)
    (rest : List α) : splitBy p (xs ++ mark :: rest) = xs :: splitBy p rest := by
  rw [splitBy_append hmark, splitBy_of_none h, List.singleton_append]

/-! ### Lines -/

/-- The lines of a text: what stands before each end of a line, and what follows the last one unless
it is empty. -/
def lines (text : String) : List String :=
  let pieces := (splitBy (· == '\n') text.toList).map String.ofList
  if pieces.getLast? = some "" then pieces.dropLast else pieces

theorem splitBy_join {ls : List String} (h : ∀ line ∈ ls, '\n' ∉ line.toList) :
    (splitBy (· == '\n') (String.join (ls.map (· ++ "\n"))).toList).map String.ofList =
      ls ++ [""] := by
  induction ls with
  | nil => rfl
  | cons line rest ih =>
    obtain ⟨hline, hrest⟩ := List.forall_mem_cons.mp h
    have hchars : ∀ c ∈ line.toList, (c == '\n') = false := fun c hc =>
      beq_eq_false_iff_ne.mpr fun heq => hline (heq ▸ hc)
    have htext : (String.join ((line :: rest).map (· ++ "\n"))).toList =
        line.toList ++ '\n' :: (String.join (rest.map (· ++ "\n"))).toList := by
      simp
    rw [htext, splitBy_append_cons hchars rfl, List.map_cons, ih hrest, String.ofList_toList,
      List.cons_append]

theorem lines_join {ls : List String} (h : ∀ line ∈ ls, '\n' ∉ line.toList) :
    lines (String.join (ls.map (· ++ "\n"))) = ls := by
  unfold lines
  rw [splitBy_join h]
  simp

end Jobflow.Text
