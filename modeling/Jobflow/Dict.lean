/-!
Finite maps with text keys, kept as lists in increasing order of the keys.
Keys are compared character by character, which is also the order of their
UTF-8 encodings.
-/

namespace Jobflow

/-- A finite map from texts to `α`. Maps built with `insert` have increasing
keys, so equal maps are equal lists. -/
abbrev Dict (α : Type) := List (String × α)

namespace Dict

variable {α β : Type}

/-- The value bound to `key`. -/
def find? (key : String) : Dict α → Option α
  | [] => none
  | (k, v) :: rest => if k = key then some v else find? key rest

/-- Whether `key` is bound. -/
def contains (key : String) (d : Dict α) : Bool :=
  (find? key d).isSome

/-- Binds `key`, replacing its earlier value. -/
def insert (key : String) (value : α) : Dict α → Dict α
  | [] => [(key, value)]
  | (k, v) :: rest =>
    if key < k then (key, value) :: (k, v) :: rest
    else if key = k then (key, value) :: rest
    else (k, v) :: insert key value rest

/-- Removes the binding of `key`. -/
def erase (key : String) : Dict α → Dict α
  | [] => []
  | (k, v) :: rest => if k = key then rest else (k, v) :: erase key rest

/-- The map of a list of bindings, where a later binding replaces an earlier one. -/
def ofList (bindings : List (String × α)) : Dict α :=
  bindings.foldl (fun d binding => insert binding.1 binding.2 d) []

/-- The map with every value changed by `f`. -/
def mapValues (f : α → β) (d : Dict α) : Dict β :=
  d.map fun binding => (binding.1, f binding.2)

/-! ### The order of the keys -/

/-- Every key is bound once, and the keys increase. -/
def Ordered (d : Dict α) : Prop := d.Pairwise fun a b => a.1 < b.1

theorem mem_insert {key : String} {value : α} {d : Dict α} {binding : String × α}
    (h : binding ∈ insert key value d) : binding.1 = key ∨ binding ∈ d := by
  induction d with
  | nil => exact .inl (by rw [List.mem_singleton.mp h])
  | cons first rest ih =>
    unfold insert at h
    split at h
    · rcases List.mem_cons.mp h with rfl | hin
      · exact .inl rfl
      · exact .inr hin
    · split at h
      · rcases List.mem_cons.mp h with rfl | hin
        · exact .inl rfl
        · exact .inr (List.mem_cons_of_mem _ hin)
      · rcases List.mem_cons.mp h with rfl | hin
        · exact .inr List.mem_cons_self
        · exact (ih hin).imp_right (List.mem_cons_of_mem _)

theorem ordered_insert {d : Dict α} (h : d.Ordered) (key : String) (value : α) :
    (insert key value d).Ordered := by
  induction d with
  | nil => exact List.pairwise_singleton _ _
  | cons first rest ih =>
    obtain ⟨k, v⟩ := first
    obtain ⟨hfirst, hrest⟩ := List.pairwise_cons.mp h
    unfold insert
    split
    · next hlt =>
      refine List.pairwise_cons.mpr ⟨?_, h⟩
      intro binding hbinding
      rcases List.mem_cons.mp hbinding with rfl | hin
      · exact hlt
      · exact String.lt_trans hlt (hfirst binding hin)
    · split
      · next heq =>
        subst heq
        exact List.pairwise_cons.mpr ⟨hfirst, hrest⟩
      · next hge hne =>
        have hlt : k < key := String.not_le.mp fun hle =>
          hne (String.le_antisymm hle (String.not_lt.mp hge))
        refine List.pairwise_cons.mpr ⟨?_, ih hrest⟩
        intro binding hbinding
        rcases mem_insert hbinding with heq | hin
        · exact heq ▸ hlt
        · exact hfirst binding hin

theorem ordered_ofList (bindings : List (String × α)) : (ofList bindings).Ordered := by
  unfold ofList
  apply List.foldlRecOn bindings (motive := Ordered)
  · exact .nil
  · intro d hd binding _
    exact ordered_insert hd binding.1 binding.2

theorem erase_sublist (key : String) (d : Dict α) : (erase key d).Sublist d := by
  induction d with
  | nil => exact .slnil
  | cons first rest ih =>
    unfold erase
    split
    · exact List.sublist_cons_self _ _
    · exact ih.cons_cons _

theorem ordered_erase {d : Dict α} (h : d.Ordered) (key : String) : (erase key d).Ordered :=
  h.sublist (erase_sublist key d)

end Dict

end Jobflow
