import Jobflow.Proofs.Files.Paths
import Mathlib.Data.List.TakeWhile

/-!
Paths whose extension is replaced, whatever they look like. With another extension a path leads
to another name in the same directory; a path that has no last name leads to a directory if it
leads anywhere, and stays as it is.
-/

namespace Jobflow.Files

open Text (splitBy splitBy_append)

namespace Path

/-! ### The body of a path -/

theorem names_append_slash (xs ys : List Char) :
    names (xs ++ '/' :: ys) = names xs ++ names ys := by
  unfold names
  rw [splitBy_append rfl, List.map_append, List.filter_append]

@[simp] theorem names_nil : names [] = [] := rfl

/-- The start of a path that is told from the rest: it has no components but the root. -/
structure Starts (start rest : List Char) : Prop where
  kind : start = [] ∨ start = ['/'] ∨ start = ['.'] ∧ (rest = [] ∨ ∃ cs, rest = '/' :: cs)
  root : start = [] → rest.head? ≠ some '/'

theorem split_spec (path : Path) : path.toList = path.split.1 ++ path.split.2 ∧
    Starts path.split.1 path.split.2 := by
  unfold split
  split
  · next rest h => exact ⟨h, .inr (.inl rfl), nofun⟩
  · next h => exact ⟨h, .inr (.inr ⟨rfl, .inl rfl⟩), nofun⟩
  · next rest h => exact ⟨h, .inr (.inr ⟨rfl, .inr ⟨rest, rfl⟩⟩), nofun⟩
  · next hslash _ _ =>
    refine ⟨rfl, .inl rfl, fun _ hhead => ?_⟩
    obtain ⟨rest, hrest⟩ := List.head?_eq_some_iff.mp hhead
    exact hslash rest hrest

theorem Starts.names_append {start rest : List Char} (h : Starts start rest) :
    names (start ++ rest) = names rest := by
  rcases h.kind with rfl | rfl | ⟨rfl, rfl | ⟨cs, rfl⟩⟩
  · rfl
  · exact names_append_slash [] rest
  · rfl
  · have hdot : names ['.'] = [] := rfl
    rw [names_append_slash, hdot, ← List.nil_append ('/' :: cs), names_append_slash]
    rfl

theorem Starts.head_append {start rest : List Char} (h : Starts start rest) :
    (start ++ rest).head? = some '/' ↔ start = ['/'] := by
  rcases h.kind with rfl | rfl | ⟨rfl, -⟩
  · exact ⟨fun hhead => absurd hhead (h.root rfl), nofun⟩
  · simp
  · simp

/-- The components of a path are those of its start and of what follows. -/
theorem Starts.components_eq {start rest : List Char} (h : Starts start rest) :
    components (String.ofList (start ++ rest)) =
      (if start = ['/'] then ["/"] else []) ++ names rest := by
  rw [Path.components_eq, String.toList_ofList, h.names_append]
  simp only [h.head_append]

theorem names_trimEnd (cs : List Char) : names (trimEnd cs).reverse = names cs.reverse := by
  fun_induction trimEnd cs with
  | case1 rest ih => rw [ih, List.reverse_cons, names_append_slash, names_nil, List.append_nil]
  | case2 => rfl
  | case3 rest ih =>
    have hdot : names ['.'] = [] := rfl
    rw [ih, List.reverse_cons, List.reverse_cons, List.reverse_cons, List.append_assoc,
      List.singleton_append, names_append_slash, names_append_slash, hdot, names_nil]
  | case4 cs _ _ _ => rfl

/-- What is cut off are characters at the end. -/
theorem trimEnd_suffix (cs : List Char) : trimEnd cs <:+ cs := by
  fun_induction trimEnd cs with
  | case1 rest ih => exact ih.trans (List.suffix_cons _ _)
  | case2 => exact List.nil_suffix
  | case3 rest ih => exact ih.trans (List.suffix_cons _ _)
  | case4 cs _ _ _ => exact List.suffix_rfl

/-- What is left ends neither in a slash nor in a component `.`. -/
theorem trimEnd_ends (cs : List Char) : (∀ rest, trimEnd cs ≠ '/' :: rest) ∧ trimEnd cs ≠ ['.'] ∧
    ∀ rest, trimEnd cs ≠ '.' :: '/' :: rest := by
  fun_induction trimEnd cs with
  | case1 rest ih => exact ih
  | case2 => exact ⟨nofun, nofun, nofun⟩
  | case3 rest ih => exact ih
  | case4 cs hslash hdot hdotSlash => exact ⟨hslash, hdot, hdotSlash⟩

/-- The body of a path follows its start as the rest of the path does. -/
theorem starts_body (path : Path) : Starts path.split.1 path.body.reverse := by
  obtain ⟨-, hstarts⟩ := path.split_spec
  obtain ⟨cut, hcut⟩ := trimEnd_suffix path.split.2.reverse
  have hrest : path.split.2 = path.body.reverse ++ cut.reverse := by
    rw [← List.reverse_append, Path.body, hcut, List.reverse_reverse]
  generalize path.split.1 = start at hstarts
  generalize path.split.2 = rest at hstarts hrest
  subst hrest
  constructor
  · rcases hstarts.kind with h | h | ⟨h, hnil | ⟨cs, hcons⟩⟩
    · exact .inl h
    · exact .inr (.inl h)
    · exact .inr (.inr ⟨h, .inl (List.append_eq_nil_iff.mp hnil).1⟩)
    · refine .inr (.inr ⟨h, ?_⟩)
      rcases List.append_eq_cons_iff.mp hcons with ⟨hbody, -⟩ | ⟨tail, hbody, -⟩
      · exact .inl hbody
      · exact .inr ⟨tail, hbody⟩
  · intro hstart hhead
    refine hstarts.root hstart ?_
    rw [List.head?_append, hhead]
    rfl

theorem components_body (path : Path) :
    path.components = components (String.ofList (path.split.1 ++ path.body.reverse)) := by
  obtain ⟨hpath, hstarts⟩ := path.split_spec
  have hwhole : path.components = components (String.ofList (path.split.1 ++ path.split.2)) := by
    rw [← hpath, String.ofList_toList]
  have hnames : names path.split.2 = names path.body.reverse := by
    rw [Path.body, names_trimEnd, List.reverse_reverse]
  rw [hwhole, hstarts.components_eq, path.starts_body.components_eq, hnames]

/-! ### The last name of a path -/

/-- What stands before the last name of a path. -/
def above (path : Path) : List Char := (path.body.dropWhile (· != '/')).reverse

def lastName (path : Path) : List Char := (path.body.takeWhile (· != '/')).reverse

theorem above_append_lastName (path : Path) : path.above ++ path.lastName = path.body.reverse := by
  rw [above, lastName, ← List.reverse_append, List.takeWhile_append_dropWhile]

theorem slashless_lastName (path : Path) : ∀ c ∈ path.lastName, c ≠ '/' := by
  intro c hc
  have hmem := List.mem_reverse.mp hc
  simpa using List.mem_takeWhile_imp hmem

theorem isLead_above (path : Path) : IsLead path.above := by
  unfold above
  cases hdrop : path.body.dropWhile (· != '/') with
  | nil => exact .inl rfl
  | cons c rest =>
    have hc : c = '/' := by
      have hhead := List.head?_dropWhile_not (· != '/') path.body
      rw [hdrop] at hhead
      simpa using hhead
    exact .inr ⟨rest.reverse, by rw [hc, List.reverse_cons]⟩

/-- There is a last name unless there is nothing but the start of the path. -/
theorem body_of_lastName_nil {path : Path} (h : path.lastName = []) : path.body = [] := by
  cases hbody : path.body with
  | nil => rfl
  | cons c rest =>
    have hc : c ≠ '/' := by
      rintro rfl
      exact (trimEnd_ends path.split.2.reverse).1 rest hbody
    rw [lastName, hbody, List.takeWhile_cons_of_pos (by simpa using hc)] at h
    simp at h

theorem lastName_ne_here (path : Path) : path.lastName ≠ ['.'] := by
  intro h
  obtain ⟨-, hdot, hdotSlash⟩ := trimEnd_ends path.split.2.reverse
  have htake : path.body.takeWhile (· != '/') = ['.'] := by
    rw [← List.reverse_reverse (path.body.takeWhile _), ← lastName, h]
    rfl
  have hbody := List.takeWhile_append_dropWhile (p := (· != '/')) (l := path.body)
  rw [htake] at hbody
  rcases isLead_above path with habove | ⟨before, habove⟩
  · rw [above, List.reverse_eq_nil_iff] at habove
    rw [habove] at hbody
    exact hdot hbody.symm
  · have hdrop : path.body.dropWhile (· != '/') = '/' :: before.reverse := by
      rw [← List.reverse_reverse (path.body.dropWhile _), ← above, habove]
      simp
    rw [hdrop] at hbody
    exact hdotSlash _ hbody.symm

variable {path : Path} {name : String}

theorem lastName_of_fileName? (h : path.fileName? = some name) :
    name = String.ofList path.lastName ∧ IsName path.lastName := by
  unfold fileName? at h
  dsimp only at h
  split at h
  · cases h
  · next hname =>
    obtain ⟨hne, habove⟩ := not_or.mp hname
    exact ⟨(Option.some.inj h).symm, path.slashless_lastName, hne, path.lastName_ne_here, habove⟩

/-- What stands before the last name, the start of the path included, ends in a slash. -/
theorem isLead_start (h : path.lastName ≠ []) : IsLead (path.split.1 ++ path.above) := by
  rcases path.isLead_above with habove | ⟨before, habove⟩
  · rw [habove, List.append_nil]
    rcases path.starts_body.kind with hstart | hstart | ⟨-, hrest⟩
    · exact .inl hstart
    · exact .inr ⟨[], hstart⟩
    · -- behind a leading `.` the body starts with a slash, and so what stands before the name does
      rw [← above_append_lastName, habove, List.nil_append] at hrest
      rcases hrest with hnil | ⟨cs, hcons⟩
      · exact absurd hnil h
      · exact absurd rfl (path.slashless_lastName '/' (hcons ▸ List.mem_cons_self))
  · exact .inr ⟨path.split.1 ++ before, by rw [habove, List.append_assoc]⟩

theorem components_of_lastName (path : Path) : path.components =
    components (String.ofList ((path.split.1 ++ path.above) ++ path.lastName)) := by
  rw [components_body, List.append_assoc, above_append_lastName]

/-! ### Another extension -/

/-- A name with another extension is another name. -/
theorem stem_append_ne (name : String) : stem name ++ "." ++ "json.tmp" ≠ name := by
  intro h
  have hreverse : name.toList.reverse =
      "pmt".toList ++ '.' :: ("nosj.".toList ++ (stem name).toList.reverse) := by
    conv_lhs => rw [← h]
    simp
  have hdrop : name.toList.reverse.dropWhile (· != '.') =
      '.' :: ("nosj.".toList ++ (stem name).toList.reverse) := by
    rw [hreverse]
    rfl
  have hstem : stem name =
      String.ofList ("nosj.".toList ++ (stem name).toList.reverse).reverse := by
    conv_lhs => rw [stem, hdrop]
    exact if_neg (by simp)
  have hlength := congrArg (fun s => s.toList.length) hstem
  simp at hlength

theorem slashless_stem {name : String} (h : ∀ c ∈ name.toList, c ≠ '/') :
    ∀ c ∈ (stem name).toList, c ≠ '/' := by
  unfold stem
  dsimp only
  split
  · next before hdrop =>
    split
    · exact h
    · intro c hc
      rw [String.toList_ofList, List.mem_reverse] at hc
      have hmem : c ∈ name.toList.reverse.dropWhile (· != '.') := by
        rw [hdrop]
        exact List.mem_cons_of_mem _ hc
      exact h c (List.mem_reverse.mp ((List.dropWhile_sublist _).subset hmem))
  · exact h

/-- With another extension a path leads elsewhere, unless it has no last name. -/
theorem place_withExtension_ne (path : Path) (h : path.fileName? ≠ none) :
    Path.place (path.withExtension "json.tmp") ≠ Path.place path := by
  obtain ⟨name, hfile⟩ := Option.ne_none_iff_exists'.mp h
  obtain ⟨rfl, hname⟩ := lastName_of_fileName? hfile
  have hlead := isLead_start hname.nonempty
  have hother : IsName ((stem (String.ofList path.lastName)).toList ++ ".json.tmp".toList) := by
    refine isName_of_suffix (slashless_stem ?_) (by simp) (by decide)
    rw [String.toList_ofList]
    exact hname.slashless
  have htext : path.withExtension "json.tmp" = String.ofList ((path.split.1 ++ path.above) ++
      ((stem (String.ofList path.lastName)).toList ++ ".json.tmp".toList)) := by
    rw [withExtension, hfile]
    dsimp only
    rw [← above, ← String.toList_inj]
    simp
  have habove {cs : List Char} (hcs : IsName cs) : String.ofList cs ≠ ".." := by
    simpa [← String.toList_inj] using hcs.notAbove
  rw [place, place, htext, components_append hlead hother, components_of_lastName path,
    components_append hlead hname, List.foldl_append, List.foldl_append]
  simp only [List.foldl_cons, List.foldl_nil, Place.down, if_neg (habove hname),
    if_neg (habove hother)]
  intro hsame
  have hlast := (List.cons.inj (List.append_cancel_left hsame)).1
  refine stem_append_ne (String.ofList path.lastName) (Eq.trans ?_ hlast)
  rw [← String.toList_inj]
  simp

/-- A path without a last name stays as it is. -/
theorem withExtension_of_none (h : path.fileName? = none) (extension : String) :
    path.withExtension extension = path := by
  rw [withExtension, h]

/-- A path without a last name leads to where it starts, or upwards. -/
theorem components_of_fileName?_none (h : path.fileName? = none) :
    path.components = [] ∨ path.components = ["/"] ∨
      ∃ front, path.components = front ++ [".."] := by
  unfold fileName? at h
  dsimp only at h
  split at h
  · next hname =>
    rcases hname with hnil | hup
    · rw [components_body, body_of_lastName_nil hnil]
      have hstarts := path.starts_body
      rw [body_of_lastName_nil hnil] at hstarts
      rw [hstarts.components_eq]
      split
      · exact .inr (.inl rfl)
      · exact .inl rfl
    · have hlast : path.lastName = ['.', '.'] := hup
      have hupwards : names ['.', '.'] = [".."] := rfl
      refine .inr (.inr ?_)
      rw [components_of_lastName, Path.components_eq, String.toList_ofList, hlast]
      have hnamed : path.lastName ≠ [] := by simp [hlast]
      rcases isLead_start hnamed with hlead | ⟨before, hlead⟩
      · rw [hlead]
        exact ⟨_, rfl⟩
      · rw [hlead, List.append_assoc, List.singleton_append, names_append_slash, hupwards,
          ← List.append_assoc]
        exact ⟨_, rfl⟩
  · cases h

end Path

/-! ### Paths upwards -/

namespace Tree

variable {tree : Tree} {place : Place}

/-- Every place on the way to a place is a directory. -/
def Rooted (tree : Tree) (place : Place) : Prop :=
  ∀ k < place.length, tree.entryAt? (place.take k) = some .directory

theorem rooted_nil (tree : Tree) : tree.Rooted [] := nofun

theorem isAround_take {k : Nat} (h : place.isAround = true) :
    Place.isAround (place.take k) = true := by
  simp only [Place.isAround, List.all_eq_true] at h ⊢
  exact fun name hname => h name (List.mem_of_mem_take hname)

/-- Above a place that can be followed lies a directory. -/
theorem Rooted.above (h : tree.Rooted place) :
    tree.Rooted place.above ∧ tree.entryAt? place.above = some .directory := by
  unfold Place.above
  split
  · next hroot => exact ⟨h, entryAt?_of_isAround (.inr hroot)⟩
  · split
    · next haround =>
      have hmore : Place.isAround (place ++ [".."]) = true := by
        simpa [Place.isAround] using haround
      exact ⟨fun k _ => entryAt?_of_isAround (.inl (isAround_take hmore)),
        entryAt?_of_isAround (.inl hmore)⟩
    · next haround =>
      have hne : place ≠ [] := by
        rintro rfl
        exact haround rfl
      have hlength : 0 < place.length := List.length_pos_iff.mpr hne
      rw [List.dropLast_eq_take]
      refine ⟨fun k hk => ?_, h _ (by omega)⟩
      rw [List.length_take] at hk
      rw [List.take_take, Nat.min_eq_left (by omega)]
      exact h k (by omega)

theorem Rooted.append {name : String} (h : tree.Rooted place)
    (hplace : tree.entryAt? place = some .directory) : tree.Rooted (place ++ [name]) := by
  intro k hk
  rw [List.length_append, List.length_singleton] at hk
  rcases Nat.lt_or_eq_of_le (Nat.le_of_lt_succ hk) with hlt | rfl
  · rw [List.take_append_of_le_length (Nat.le_of_lt hlt)]
    exact h k hlt
  · rwa [List.take_left]

theorem rooted_of_follow {start : Place} {names : List String} (hstart : tree.Rooted start)
    (h : tree.follow start names = .ok place) : tree.Rooted place := by
  induction names generalizing start with
  | nil =>
    obtain rfl := Except.ok.inj h
    exact hstart
  | cons name rest ih =>
    unfold follow at h
    split at h
    · cases h
    · cases h
    · next hdirectory =>
      split at h
      · cases h
      · split at h
        · exact ih hstart.above.1 h
        · exact ih (hstart.append hdirectory) h

/-- A path without a last name leads to a directory, if it leads anywhere. -/
theorem directory_of_fileName?_none {path : Path} (hname : path.fileName? = none)
    (h : tree.locate path = .ok place) : tree.entryAt? place = some .directory := by
  obtain ⟨-, hfollow, -⟩ := locate_eq_ok_iff.mp h
  rcases Path.components_of_fileName?_none hname with hnone | hroot | ⟨front, hup⟩
  · rw [hnone] at hfollow
    obtain rfl := Except.ok.inj hfollow
    exact entryAt?_of_isAround (.inl rfl)
  · rw [hroot] at hfollow
    obtain rfl := Except.ok.inj hfollow
    exact entryAt?_of_isAround (.inr rfl)
  · rw [hup, follow_append] at hfollow
    obtain ⟨middle, hmiddle, hfollow⟩ := bind_eq_ok_iff.mp hfollow
    have hrooted := rooted_of_follow (rooted_nil tree) hmiddle
    -- the way upwards ends above a place that was reached through directories
    unfold follow at hfollow
    split at hfollow
    · cases hfollow
    · cases hfollow
    · rw [if_neg (by decide), if_pos rfl] at hfollow
      obtain rfl := Except.ok.inj hfollow
      exact hrooted.above.2

end Tree

end Jobflow.Files
