import Jobflow.Proofs.Job.Routes
import Jobflow.Settings.Basic
import Mathlib.Algebra.Order.BigOperators.Group.List

/-!
Entering a table again, from the entries it reports. It comes out as it was, and every host it
reports is found in it, unless a host was given with a blank before the dots at its end: the form
of such a host ends in that blank, and the host that is looked up or entered again does not.
-/

namespace Jobflow.Job

theorem length_normalHost_le (host : String) :
    (normalHost host).toList.length ≤ host.toList.length := by
  rw [toList_normalHost, List.length_map]
  exact (bareChars_sublist _).length_le

/-- A form that loses no character on the way to its own form is that form. -/
theorem normalHost_eq_of_length_le {given : String}
    (h : (normalHost given).toList.length ≤ (normalHost (normalHost given)).toList.length) :
    normalHost (normalHost given) = normalHost given := by
  rw [toList_normalHost (normalHost given), List.length_map] at h
  have hbare := (bareChars_sublist _).eq_of_length_le h
  rw [← String.toList_inj, toList_normalHost (normalHost given), hbare, toList_normalHost,
    List.map_map]
  exact congrArg (List.map · _) (funext Text.lowerChar_lowerChar)

/-- A map that only reorders the list and makes no element larger makes none smaller. -/
theorem size_le_of_perm_map {α : Type} {f : α → α} {xs : List α} (size : α → Nat)
    (hperm : xs.Perm (xs.map f)) (hle : ∀ x ∈ xs, size (f x) ≤ size x) {x : α} (hx : x ∈ xs) :
    size x ≤ size (f x) := by
  have hsum : (xs.map size).sum = (xs.map (size ∘ f)).sum := by
    rw [← List.map_map]
    exact (hperm.map size).sum_eq
  by_contra hlost
  exact (List.sum_lt_sum _ _ hle ⟨x, hx, not_le.mp hlost⟩).ne hsum.symm

namespace Routes

variable {routes : Routes} {entries : List (String × String)}

/-- Every host of the table is its own form. -/
def Steady (routes : Routes) : Prop := ∀ entry ∈ routes.table, normalHost entry.1 = entry.1

theorem ordered_table (h : ofEntries entries = .ok routes) : Dict.Ordered routes.table :=
  (ofEntries_eq_ok_iff.mp h).2 ▸ Dict.ordered_ofList _

theorem find?_of_mem (h : ofEntries entries = .ok routes) {entry : String × String}
    (hentry : entry ∈ routes.table) : Dict.find? entry.1 routes.table = some entry.2 :=
  (Dict.find?_eq_some_iff (ordered_table h).nodup).mpr hentry

theorem mem_table_iff (h : ofEntries entries = .ok routes) {entry : String × String} :
    entry ∈ routes.table ↔ ∃ given ∈ entries, normalEntry given = entry := by
  obtain ⟨hentries, htable⟩ := ofEntries_eq_ok_iff.mp h
  rw [htable, (Dict.perm_ofList hentries.nodup_keys).mem_iff, List.mem_map]

theorem steady_iff (h : ofEntries entries = .ok routes) :
    routes.Steady ↔ ∀ entry ∈ entries, ¬ BlankBeforeDots entry.1 := by
  have hhost : ∀ given ∈ entries, normalHost given.1 ≠ "" := fun given hgiven =>
    ((ofEntries_eq_ok_iff.mp h).1.listable given hgiven).host
  constructor
  · intro hsteady given hgiven
    have hform := hsteady _ ((mem_table_iff h).mpr ⟨given, hgiven, rfl⟩)
    rw [normalEntry_fst] at hform
    exact (normalHost_normalHost_iff (hhost given hgiven)).mp hform
  · intro hnone entry hentry
    obtain ⟨given, hgiven, rfl⟩ := (mem_table_iff h).mp hentry
    rw [normalEntry_fst]
    exact (normalHost_normalHost_iff (hhost given hgiven)).mpr (hnone given hgiven)

theorem forHost?_of_steady (h : ofEntries entries = .ok routes) (hsteady : routes.Steady)
    {entry : String × String} (hentry : entry ∈ routes.table) :
    routes.forHost? entry.1 = some entry.2 := by
  rw [forHost?_eq_some_iff, hsteady entry hentry]
  exact .inl (find?_of_mem h hentry)

theorem listable_of_mem (h : ofEntries entries = .ok routes) (hsteady : routes.Steady)
    {entry : String × String} (hentry : entry ∈ routes.table) : Listable entry := by
  have hform := hsteady entry hentry
  obtain ⟨given, hgiven, rfl⟩ := (mem_table_iff h).mp hentry
  have hlistable := (ofEntries_eq_ok_iff.mp h).1.listable given hgiven
  rw [normalEntry_fst] at hform
  refine ⟨?_, bare_iff.mp ?_, ?_⟩
  · rw [normalEntry_fst, hform]
    exact hlistable.host
  · rw [normalEntry_fst, hform]
    exact bare_iff.mpr hlistable.bare
  · rw [normalEntry_snd, Text.trim_trim]
    exact hlistable.workflow

theorem ofEntries_table_of_steady (h : ofEntries entries = .ok routes) (hsteady : routes.Steady) :
    ofEntries routes.table = .ok routes := by
  have hsame : routes.table.map normalEntry = routes.table := by
    conv => rhs; rw [← List.map_id routes.table]
    apply List.map_congr_left
    intro entry hentry
    obtain ⟨given, -, rfl⟩ := (mem_table_iff h).mp hentry
    exact Prod.ext (hsteady _ hentry) (Text.trim_trim given.2)
  have hdistinct : (routes.table.map fun entry => normalHost entry.1).Nodup := by
    have hkeys := (ordered_table h).nodup
    rwa [← hsame, List.map_map] at hkeys
  refine ofEntries_eq_ok_iff.mpr ⟨⟨fun entry => listable_of_mem h hsteady, hdistinct⟩, ?_⟩
  rw [hsame, Dict.ofList_of_ordered (ordered_table h)]

/-- The hosts that are entered again are those of the table in another order, so together they have
as many characters, and none of them has lost one. -/
theorem steady_of_ofEntries_table (h : ofEntries entries = .ok routes)
    (hagain : ofEntries routes.table = .ok routes) : routes.Steady := by
  obtain ⟨htable, hsame⟩ := ofEntries_eq_ok_iff.mp hagain
  have hperm : routes.table.Perm (routes.table.map normalEntry) := by
    conv => lhs; rw [hsame]
    exact Dict.perm_ofList htable.nodup_keys
  intro entry hentry
  have hkept := size_le_of_perm_map (fun entry => entry.1.toList.length) hperm
    (fun entry _ => length_normalHost_le entry.1) hentry
  obtain ⟨given, -, rfl⟩ := (mem_table_iff h).mp hentry
  simp only [normalEntry_fst] at hkept ⊢
  exact normalHost_eq_of_length_le hkept

/-- A table that was made finds every host it reports and is made again from what it reports
exactly when no host was given with a blank before the dots at its end. -/
theorem table_is_own_form_iff (h : ofEntries entries = .ok routes) :
    ((∀ entry ∈ routes.table, routes.forHost? entry.1 = some entry.2) ∧
      ofEntries routes.table = .ok routes) ↔
    ∀ entry ∈ entries, ¬ BlankBeforeDots entry.1 := by
  rw [← steady_iff h]
  constructor
  · exact fun hform => steady_of_ofEntries_table h hform.2
  · exact fun hsteady =>
      ⟨fun entry => forHost?_of_steady h hsteady, ofEntries_table_of_steady h hsteady⟩

/-- The usual job boards, and one that is given with blanks and a dot around it. -/
def boards : List (String × String) := (" Jobs.Example.COM. ", "example ") :: standard.table

def boardTable : Routes :=
  ⟨[("indeed.com", "indeed"), ("jobs.example.com", "example"), ("linkedin.com", "linkedin"),
    ("www.pracuj.pl", "pracuj")]⟩

theorem table_is_own_form_iff_boards :
    ofEntries boards = .ok boardTable ∧
      (∀ entry ∈ boardTable.table, boardTable.forHost? entry.1 = some entry.2) ∧
      ofEntries boardTable.table = .ok boardTable ∧
      Settings.standard.routeTable = .ok standard := by
  have hboards : ofEntries boards = .ok boardTable := by decide
  have hsteady : boardTable.Steady := by
    unfold Steady
    decide
  obtain ⟨hfound, hagain⟩ := (table_is_own_form_iff hboards).mpr ((steady_iff hboards).mp hsteady)
  exact ⟨hboards, hfound, hagain, by decide⟩

/-- A blank before the dot: the host that the table reports is not found in it. -/
theorem blank_before_dot_is_lost :
    ∃ routes, ofEntries [("indeed.com .", "indeed")] = .ok routes ∧
      ("indeed.com ", "indeed") ∈ routes.table ∧ routes.forHost? "indeed.com " = none ∧
      ofEntries routes.table ≠ .ok routes := by
  refine ⟨⟨[("indeed.com ", "indeed")]⟩, ?_⟩
  decide

end Routes

end Jobflow.Job
