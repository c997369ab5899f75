import Jobflow.Dict
import Mathlib.Data.List.Induction
import Mathlib.Data.List.Nodup
import Mathlib.Data.String.Basic

/-!
Finite maps as what they bind. Binding a key or removing it leaves every other key alone; a map
with increasing keys is determined by what it binds, so that the map of bindings with different
keys does not depend on their order.
-/

namespace Jobflow

namespace Dict

variable {α β : Type}

@[simp] theorem find?_insert_self (key : String) (value : α) (d : Dict α) :
    find? key (insert key value d) = some value := by
  induction d with
  | nil => simp [insert, find?]
  | cons binding rest ih =>
    obtain ⟨k, v⟩ := binding
    by_cases hlt : key < k
    · simp [insert, find?, hlt]
    · by_cases heq : key = k
      · simp [insert, find?, heq]
      · simp [insert, find?, hlt, heq, Ne.symm heq, ih]

theorem find?_insert_of_ne {key other : String} (hne : other ≠ key) (value : α) (d : Dict α) :
    find? other (insert key value d) = find? other d := by
  induction d with
  | nil => simp [insert, find?, Ne.symm hne]
  | cons binding rest ih =>
    obtain ⟨k, v⟩ := binding
    by_cases hlt : key < k
    · simp [insert, find?, hlt, Ne.symm hne]
    · by_cases heq : key = k
      · subst heq
        simp [insert, find?, Ne.symm hne]
      · simp [insert, find?, hlt, heq, ih]

theorem find?_erase_of_ne {key other : String} (hne : other ≠ key) (d : Dict α) :
    find? other (erase key d) = find? other d := by
  induction d with
  | nil => rfl
  | cons binding rest ih =>
    obtain ⟨k, v⟩ := binding
    by_cases heq : k = key
    · simp [erase, find?, heq, Ne.symm hne]
    · simp [erase, find?, heq, ih]

theorem ofList_concat (bindings : List (String × α)) (binding : String × α) :
    ofList (bindings ++ [binding]) = insert binding.1 binding.2 (ofList bindings) := by
  rw [ofList, List.foldl_append]
  rfl

/-- Later bindings of other names do not matter. -/
theorem find?_ofList_append (first : List (String × α)) {later : List (String × α)} {key : String}
    (h : ∀ binding ∈ later, binding.1 ≠ key) :
    find? key (ofList (first ++ later)) = find? key (ofList first) := by
  induction later using List.reverseRecOn with
  | nil => rw [List.append_nil]
  | append_singleton later binding ih =>
    have hkey : binding.1 ≠ key := h binding (by simp)
    rw [← List.append_assoc, ofList_concat, find?_insert_of_ne hkey.symm]
    exact ih fun other hother => h other (by simp [hother])

theorem find?_ofList_map (f : α → β) (bindings : List (String × α)) (key : String) :
    find? key (ofList (bindings.map fun binding => (binding.1, f binding.2))) =
      (find? key (ofList bindings)).map f := by
  induction bindings using List.reverseRecOn with
  | nil => rfl
  | append_singleton bindings binding ih =>
    rw [List.map_append, List.map_singleton, ofList_concat, ofList_concat]
    by_cases hkey : key = binding.1
    · subst hkey
      simp only [find?_insert_self, Option.map_some]
    · rw [find?_insert_of_ne hkey, find?_insert_of_ne hkey, ih]

/-! ### Maps in order -/

theorem find?_eq_none {key : String} {d : Dict α} (h : ∀ binding ∈ d, binding.1 ≠ key) :
    find? key d = none := by
  induction d with
  | nil => rfl
  | cons first rest ih =>
    obtain ⟨hfirst, hrest⟩ := List.forall_mem_cons.mp h
    unfold find?
    rw [if_neg hfirst, ih hrest]

/-- A key that was bound once is not bound any more when its binding is gone. -/
theorem find?_erase_self {d : Dict α} (h : d.Ordered) (key : String) :
    find? key (erase key d) = none := by
  induction d with
  | nil => rfl
  | cons first rest ih =>
    obtain ⟨k, v⟩ := first
    obtain ⟨hfirst, hrest⟩ := List.pairwise_cons.mp h
    unfold erase
    split
    · next heq =>
      subst heq
      exact find?_eq_none fun binding hin => (hfirst binding hin).ne'
    · next hne =>
      unfold find?
      rw [if_neg hne, ih hrest]

/-! ### Maps as what they bind -/

theorem Ordered.nodup {d : Dict α} (h : d.Ordered) : (d.map Prod.fst).Nodup :=
  List.pairwise_map.mpr (h.imp LT.lt.ne)

theorem find?_eq_some_iff {d : Dict α} (h : (d.map Prod.fst).Nodup) {key : String} {value : α} :
    find? key d = some value ↔ (key, value) ∈ d := by
  induction d with
  | nil => simp [find?]
  | cons first rest ih =>
    obtain ⟨k, v⟩ := first
    obtain ⟨hfirst, hrest⟩ := List.nodup_cons.mp h
    by_cases heq : k = key
    · subst heq
      have hout : (k, value) ∉ rest := fun hin => hfirst (List.mem_map.mpr ⟨_, hin, rfl⟩)
      simp [find?, hout, eq_comm]
    · simp [find?, heq, Ne.symm heq, ih hrest]

theorem contains_eq_true_iff {d : Dict α} {key : String} :
    contains key d = true ↔ key ∈ d.map Prod.fst := by
  induction d with
  | nil => simp [contains, find?]
  | cons first rest ih =>
    obtain ⟨k, v⟩ := first
    by_cases heq : k = key
    · simp [contains, find?, heq]
    · simpa [contains, find?, heq, Ne.symm heq] using ih

/-- Maps in order that bind the same are the same. -/
theorem eq_of_mem_iff {d e : Dict α} (hd : d.Ordered) (he : e.Ordered)
    (h : ∀ binding, binding ∈ d ↔ binding ∈ e) : d = e := by
  have hperm : d.Perm e :=
    (List.perm_ext_iff_of_nodup (List.Nodup.of_map _ hd.nodup) (List.Nodup.of_map _ he.nodup)).mpr h
  exact hperm.eq_of_pairwise (fun a b _ _ hab hba => absurd hba hab.asymm) hd he

/-- Of several bindings of a key the last one counts. -/
theorem find?_ofList (bindings : List (String × α)) (key : String) :
    find? key (ofList bindings) =
      (bindings.reverse.find? fun binding => binding.1 = key).map Prod.snd := by
  induction bindings using List.reverseRecOn with
  | nil => rfl
  | append_singleton bindings binding ih =>
    rw [ofList_concat, List.reverse_append, List.reverse_singleton, List.singleton_append]
    by_cases heq : binding.1 = key
    · subst heq
      simp
    · rw [find?_insert_of_ne (Ne.symm heq), ih, List.find?_cons_of_neg (by simpa using heq)]

theorem perm_insert {d : Dict α} {key : String} (h : key ∉ d.map Prod.fst) (value : α) :
    (insert key value d).Perm ((key, value) :: d) := by
  induction d with
  | nil => exact .refl _
  | cons first rest ih =>
    obtain ⟨k, v⟩ := first
    obtain ⟨hne, hrest⟩ := not_or.mp (List.mem_cons.not.mp h)
    unfold insert
    rw [if_neg hne]
    split
    · exact .refl _
    · exact ((ih hrest).cons _).trans (.swap ..)

/-- Bindings with different keys are all kept. -/
theorem perm_ofList {bindings : List (String × α)} (h : (bindings.map Prod.fst).Nodup) :
    (ofList bindings).Perm bindings := by
  induction bindings using List.reverseRecOn with
  | nil => exact .refl _
  | append_singleton bindings binding ih =>
    rw [List.map_append, List.map_singleton, List.nodup_append] at h
    obtain ⟨hbindings, -, hdisjoint⟩ := h
    have hperm := ih hbindings
    have hnew : binding.1 ∉ (ofList bindings).map Prod.fst := by
      intro hin
      exact hdisjoint _ ((hperm.map Prod.fst).mem_iff.mp hin) _ (List.mem_singleton_self _) rfl
    rw [ofList_concat]
    exact (perm_insert hnew _).trans ((hperm.cons _).trans (List.perm_append_singleton _ _).symm)

theorem find?_ofList_eq_some_iff {bindings : List (String × α)} (h : (bindings.map Prod.fst).Nodup)
    {key : String} {value : α} :
    find? key (ofList bindings) = some value ↔ (key, value) ∈ bindings :=
  (find?_eq_some_iff (ordered_ofList bindings).nodup).trans (perm_ofList h).mem_iff

/-- The map of bindings with different keys does not depend on their order. -/
theorem ofList_perm {bindings bindings' : List (String × α)} (h : (bindings.map Prod.fst).Nodup)
    (hperm : bindings.Perm bindings') : ofList bindings = ofList bindings' := by
  have h' : (bindings'.map Prod.fst).Nodup := (hperm.map Prod.fst).nodup_iff.mp h
  apply eq_of_mem_iff (ordered_ofList _) (ordered_ofList _)
  intro binding
  rw [(perm_ofList h).mem_iff, hperm.mem_iff, (perm_ofList h').mem_iff]

theorem ofList_of_ordered {d : Dict α} (h : d.Ordered) : ofList d = d :=
  eq_of_mem_iff (ordered_ofList d) h fun _ => (perm_ofList h.nodup).mem_iff

end Dict

end Jobflow
