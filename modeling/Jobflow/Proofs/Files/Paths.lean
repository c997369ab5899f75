import Jobflow.Proofs.Files.Places
import Jobflow.Proofs.Uuid

/-!
Where the files of a directory lie. The path of a file in a directory leads to the place below
that of the directory, and another extension leads to another name at the same place.
-/

namespace Jobflow.Files

open Text (splitBy splitBy_append)

/-! ### Names -/

/-- The name of a file: it has no slash, and does not lead to the directory itself or upwards. -/
structure IsName (name : List Char) : Prop where
  slashless : ∀ c ∈ name, c ≠ '/'
  nonempty : name ≠ []
  notHere : name ≠ ['.']
  notAbove : name ≠ ['.', '.']

/-- A text with a long ending is a name, for it is neither `.` nor `..`. -/
theorem isName_of_suffix {stem suffix : List Char} (hstem : ∀ c ∈ stem, c ≠ '/')
    (hsuffix : ∀ c ∈ suffix, c ≠ '/') (hlength : 3 ≤ suffix.length) : IsName (stem ++ suffix) := by
  have hlong : 3 ≤ (stem ++ suffix).length := by
    rw [List.length_append]
    omega
  refine ⟨fun c hc => (List.mem_append.mp hc).elim (hstem c) (hsuffix c), ?_, ?_, ?_⟩ <;>
  · rintro h
    rw [h] at hlong
    exact absurd hlong (by decide)

/-- What stands before a name in the path of a file: nothing, or a text that ends in a slash. -/
def IsLead (front : List Char) : Prop := front = [] ∨ ∃ before, front = before ++ ['/']

theorem IsLead.of_cons {c : Char} {front : List Char} (h : IsLead (c :: front)) : IsLead front := by
  rcases h with h | ⟨before, h⟩
  · cases h
  · cases before with
    | nil => exact .inl (List.cons.inj h).2
    | cons d before => exact .inr ⟨before, (List.cons.inj h).2⟩

namespace Path

variable {front name : List Char} {dir : Path}

/-- What a name is put behind, to look it up in a directory. -/
def lead (dir : Path) : List Char :=
  if dir = "" then []
  else if dir.toList.getLast? = some '/' then dir.toList
  else dir.toList ++ ['/']

theorem isLead_lead (dir : Path) : IsLead dir.lead := by
  unfold Path.lead
  split
  · exact .inl rfl
  · split
    · next hlast => exact .inr (List.getLast?_eq_some_iff.mp hlast)
    · exact .inr ⟨_, rfl⟩

theorem join_eq (hname : IsName name) :
    dir.join (String.ofList name) = String.ofList (dir.lead ++ name) := by
  have hhead : ¬ name.head? = some '/' := fun h =>
    hname.slashless '/' (List.mem_of_mem_head? h) rfl
  unfold join Path.lead
  rw [String.toList_ofList]
  simp only [hhead, false_or]
  split
  · simp
  · split
    · simp
    · simp [← String.toList_inj]

/-- The components of a text of characters, the root apart. -/
def names (cs : List Char) : List String :=
  ((splitBy (· == '/') cs).map String.ofList).filter fun part => part ≠ "" ∧ part ≠ "."

theorem components_eq (path : Path) :
    path.components =
      (if path.toList.head? = some '/' then ["/"] else []) ++ names path.toList := by
  unfold components names
  dsimp only
  split <;> rfl

theorem names_name (hname : IsName name) : names name = [String.ofList name] := by
  have hsplit : splitBy (· == '/') name = [name] :=
    Text.splitBy_of_none fun c hc => beq_eq_false_iff_ne.mpr (hname.slashless c hc)
  have hempty : String.ofList name ≠ "" := by
    simpa [← String.toList_inj] using hname.nonempty
  have hhere : String.ofList name ≠ "." := by
    simpa [← String.toList_inj] using hname.notHere
  simp [names, hsplit, hempty, hhere]

theorem names_append (hfront : IsLead front) (hname : IsName name) :
    names (front ++ name) = names front ++ [String.ofList name] := by
  rcases hfront with rfl | ⟨before, rfl⟩
  · rw [List.nil_append, names_name hname]
    rfl
  · have hempty : splitBy (· == '/') ([] : List Char) = [[]] := rfl
    have hnamed := names_name hname
    unfold names at hnamed ⊢
    rw [List.append_assoc, List.singleton_append, splitBy_append rfl, splitBy_append rfl, hempty,
      List.map_append, List.map_append, List.filter_append, List.filter_append, hnamed]
    simp

theorem names_lead (dir : Path) : names dir.lead = names dir.toList := by
  unfold Path.lead
  split
  · next h => rw [h]; rfl
  · split
    · rfl
    · have hempty : splitBy (· == '/') ([] : List Char) = [[]] := rfl
      unfold names
      rw [splitBy_append rfl, hempty, List.map_append, List.filter_append]
      simp

theorem head_lead (dir : Path) : dir.lead.head? = dir.toList.head? := by
  unfold Path.lead
  split
  · next h => rw [h]; rfl
  · next h =>
    have hne : dir.toList ≠ [] := fun hnil => h (String.toList_inj.mp hnil)
    split
    · rfl
    · cases hchars : dir.toList with
      | nil => exact absurd hchars hne
      | cons c cs => rfl

theorem head_append (hfront : IsLead front) (hname : IsName name) :
    (front ++ name).head? = some '/' ↔ front.head? = some '/' := by
  rcases hfront with rfl | ⟨before, rfl⟩
  · rw [List.nil_append]
    exact ⟨fun h => absurd rfl (hname.slashless '/' (List.mem_of_mem_head? h)), nofun⟩
  · cases before <;> simp

theorem components_append (hfront : IsLead front) (hname : IsName name) :
    components (String.ofList (front ++ name)) =
      components (String.ofList front) ++ [String.ofList name] := by
  rw [components_eq, components_eq, String.toList_ofList, String.toList_ofList,
    names_append hfront hname, ← List.append_assoc]
  simp only [head_append hfront hname]

/-- The last component of the path of a file is its name. -/
theorem components_join (hname : IsName name) :
    (dir.join (String.ofList name)).components = dir.components ++ [String.ofList name] := by
  have hlead : components (String.ofList dir.lead) = dir.components := by
    rw [components_eq, components_eq, String.toList_ofList, names_lead, head_lead]
  rw [join_eq hname, components_append (isLead_lead dir) hname, hlead]

/-- A file lies below the place of its directory. -/
theorem place_join (hname : IsName name) :
    Path.place (dir.join (String.ofList name)) = Path.place dir ++ [String.ofList name] := by
  have habove : String.ofList name ≠ ".." := by
    simpa [← String.toList_inj] using hname.notAbove
  unfold Path.place
  rw [components_join hname, List.foldl_append, List.foldl_cons, List.foldl_nil, Place.down,
    if_neg habove]

/-- Where a file can be looked up, its directory is there. -/
theorem opens_of_locate_join {tree : Tree} {place : Place} (hname : IsName name)
    (h : tree.locate (dir.join (String.ofList name)) = .ok place) : tree.Opens dir := by
  obtain ⟨-, hfollow, -⟩ := Tree.locate_eq_ok_iff.mp h
  rw [components_join hname] at hfollow
  exact Tree.opens_of_follow_append hfollow

/-! ### Files of a directory -/

/-- The path is that of a file with the name in the directory itself: its components are those of
the directory and the name, and wherever it leads, it leads to the name in the directory, which is
there. -/
structure IsChild (path dir : Path) (name : String) : Prop where
  isName : IsName name.toList
  components : path.components = dir.components ++ [name]
  located : ∀ (tree : Tree) (place : Place), tree.locate path = .ok place →
    tree.Opens dir ∧ place = Path.place dir ++ [name]

theorem isChild_join (hname : IsName name) :
    (dir.join (String.ofList name)).IsChild dir (String.ofList name) where
  isName := by rwa [String.toList_ofList]
  components := components_join hname
  located tree place hplace :=
    ⟨opens_of_locate_join hname hplace, by rw [← Tree.place_of_locate hplace, place_join hname]⟩

/-! ### Other extensions -/

/-- The start of a path stands before its last name. -/
theorem split_append (hfront : IsLead front) (hname : IsName name) :
    ∃ start rest, front = start ++ rest ∧ IsLead rest ∧
      split (String.ofList (front ++ name)) = (start, rest ++ name) := by
  unfold split
  rw [String.toList_ofList]
  split
  · next tail h =>
    cases front with
    | nil =>
      rw [List.nil_append] at h
      exact absurd rfl (hname.slashless '/' (h ▸ List.mem_cons_self))
    | cons c front =>
      obtain ⟨rfl, rfl⟩ := List.cons.inj h
      exact ⟨_, front, rfl, hfront.of_cons, rfl⟩
  · next h =>
    cases front with
    | nil => exact absurd h hname.notHere
    | cons c front =>
      have hnil := (List.append_eq_nil_iff.mp (List.cons.inj h).2).2
      exact absurd hnil hname.nonempty
  · next tail h =>
    rcases front with _ | ⟨c, _ | ⟨d, front⟩⟩
    · rw [List.nil_append] at h
      exact absurd rfl (hname.slashless '/' (h ▸ List.mem_cons_of_mem _ List.mem_cons_self))
    · have htail : name = '/' :: tail := (List.cons.inj h).2
      exact absurd rfl (hname.slashless '/' (htail ▸ List.mem_cons_self))
    · obtain ⟨rfl, htail⟩ := List.cons.inj h
      obtain ⟨rfl, rfl⟩ := List.cons.inj htail
      exact ⟨['.'], '/' :: front, rfl, hfront.of_cons, rfl⟩
  · exact ⟨[], front, rfl, hfront, rfl⟩

theorem trimEnd_cons {c : Char} (hslash : c ≠ '/') (hdot : c ≠ '.') (cs : List Char) :
    trimEnd (c :: cs) = c :: cs := by
  unfold trimEnd
  split
  · next h => exact absurd (List.cons.inj h).1 hslash
  · next h => exact absurd (List.cons.inj h).1 hdot
  · next h => exact absurd (List.cons.inj h).1 hdot
  · rfl

theorem body_append (hfront : IsLead front) (hname : IsName name)
    (hlast : name.getLast? ≠ some '.') :
    ∃ start rest, front = start ++ rest ∧ IsLead rest ∧
      (split (String.ofList (front ++ name))).1 = start ∧
      body (String.ofList (front ++ name)) = name.reverse ++ rest.reverse := by
  obtain ⟨start, rest, rfl, hrest, hsplit⟩ := split_append hfront hname
  refine ⟨start, rest, rfl, hrest, by rw [hsplit], ?_⟩
  obtain ⟨c, cs, hreverse⟩ :=
    List.exists_cons_of_ne_nil (List.reverse_ne_nil_iff.mpr hname.nonempty)
  have hmem : c ∈ name := List.mem_reverse.mp (hreverse ▸ List.mem_cons_self)
  have hdot : c ≠ '.' := by
    rintro rfl
    rw [← List.head?_reverse, hreverse] at hlast
    exact hlast rfl
  rw [body, hsplit, List.reverse_append, hreverse, List.cons_append,
    trimEnd_cons (hname.slashless c hmem) hdot]

/-- With another extension a file has another name in the same directory. -/
theorem withExtension_append (hfront : IsLead front) (hname : IsName name)
    (hlast : name.getLast? ≠ some '.') (extension : String) :
    withExtension (String.ofList (front ++ name)) extension =
      String.ofList front ++ stem (String.ofList name) ++ "." ++ extension := by
  obtain ⟨start, rest, rfl, hrest, hstart, hbody⟩ := body_append hfront hname hlast
  have hslashless : ∀ c ∈ name.reverse, (c != '/') = true := fun c hc =>
    bne_iff_ne.mpr (hname.slashless c (List.mem_reverse.mp hc))
  have hends : rest.reverse.takeWhile (· != '/') = [] ∧
      rest.reverse.dropWhile (· != '/') = rest.reverse := by
    rcases hrest with rfl | ⟨before, rfl⟩
    · exact ⟨rfl, rfl⟩
    · simp
  have htake : (name.reverse ++ rest.reverse).takeWhile (· != '/') = name.reverse := by
    rw [List.takeWhile_append_of_pos hslashless, hends.1, List.append_nil]
  have hdrop : (name.reverse ++ rest.reverse).dropWhile (· != '/') = rest.reverse := by
    rw [List.dropWhile_append_of_pos hslashless, hends.2]
  have hfile : fileName? (String.ofList ((start ++ rest) ++ name)) = some (String.ofList name) := by
    unfold fileName?
    dsimp only
    rw [hbody, htake, List.reverse_reverse, if_neg]
    rintro (h | h)
    · exact hname.nonempty h
    · exact hname.notAbove h
  rw [withExtension, hfile]
  dsimp only
  rw [hbody, hdrop, List.reverse_reverse, hstart]

theorem withExtension_join (hname : IsName name) (hlast : name.getLast? ≠ some '.')
    {other : List Char} {extension : String} (hother : IsName other)
    (hstem : stem (String.ofList name) ++ "." ++ extension = String.ofList other) :
    (dir.join (String.ofList name)).withExtension extension = dir.join (String.ofList other) := by
  rw [join_eq hname, withExtension_append (isLead_lead dir) hname hlast, join_eq hother,
    String.ofList_append, ← hstem, String.append_assoc, String.append_assoc, String.append_assoc]

end Path

end Jobflow.Files
