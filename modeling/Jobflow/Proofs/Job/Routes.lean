import Jobflow.Proofs.Dict
import Jobflow.Proofs.Job.Hosts
import Jobflow.Proofs.Success

/-!
Route tables as what their entries say. A list of entries makes a table when every entry may be
listed and no two of them have the same host; the table is then the map from the hosts to the
workflows, in whatever order the entries stand, and a query is answered from its own host or from
the one without a leading `www.`.
-/

namespace Jobflow.Job

/-- What is asked of an entry by itself. -/
structure Listable (entry : String × String) : Prop where
  host : normalHost entry.1 ≠ ""
  bare : ∀ c ∈ entry.1.toList, c ≠ '/' ∧ c ≠ ':'
  workflow : Text.trim entry.2 ≠ ""

/-- What is asked of the entries of a table. -/
structure Consistent (entries : List (String × String)) : Prop where
  listable : ∀ entry ∈ entries, Listable entry
  distinct : (entries.map fun entry => normalHost entry.1).Nodup

/-- An entry as the table has it. -/
def normalEntry (entry : String × String) : String × String :=
  (normalHost entry.1, Text.trim entry.2)

@[simp] theorem normalEntry_fst (entry : String × String) :
    (normalEntry entry).1 = normalHost entry.1 := rfl

@[simp] theorem normalEntry_snd (entry : String × String) :
    (normalEntry entry).2 = Text.trim entry.2 := rfl

theorem Consistent.perm {entries entries' : List (String × String)} (h : Consistent entries)
    (hperm : entries'.Perm entries) : Consistent entries' where
  listable entry hentry := h.listable entry (hperm.mem_iff.mp hentry)
  distinct := (hperm.map _).nodup_iff.mpr h.distinct

theorem Consistent.nodup_keys {entries : List (String × String)} (h : Consistent entries) :
    ((entries.map normalEntry).map Prod.fst).Nodup := by
  rw [List.map_map]
  exact h.distinct

theorem consistent_concat {entries : List (String × String)} {entry : String × String} :
    Consistent (entries ++ [entry]) ↔ Consistent entries ∧ Listable entry ∧
      normalHost entry.1 ∉ entries.map fun other => normalHost other.1 := by
  have hdistinct : ((entries ++ [entry]).map fun other => normalHost other.1).Nodup ↔
      (normalHost entry.1 ∉ entries.map fun other => normalHost other.1) ∧
        (entries.map fun other => normalHost other.1).Nodup := by
    rw [List.map_append, List.map_singleton, ← List.nodup_cons]
    exact (List.perm_append_singleton _ _).nodup_iff
  constructor
  · rintro ⟨hlistable, hnodup⟩
    obtain ⟨hnew, hentries⟩ := hdistinct.mp hnodup
    exact ⟨⟨fun other hother => hlistable other (by simp [hother]), hentries⟩,
      hlistable entry (by simp), hnew⟩
  · rintro ⟨⟨hlistable, hentries⟩, hentry, hnew⟩
    refine ⟨fun other hother => ?_, hdistinct.mpr ⟨hnew, hentries⟩⟩
    rcases List.mem_append.mp hother with hother | hother
    · exact hlistable other hother
    · exact List.mem_singleton.mp hother ▸ hentry

namespace Routes

variable {routes routes' : Routes} {entries entries' : List (String × String)}

/-! ### Building a table -/

theorem bare_iff {host : String} :
    (normalHost host).toList.any (fun c => c == '/' || c == ':') = false ↔
      ∀ c ∈ host.toList, c ≠ '/' ∧ c ≠ ':' := by
  have hslash : '/' ∈ (normalHost host).toList ↔ '/' ∈ host.toList :=
    mem_normalHost (by decide) (by decide) (by decide)
  have hcolon : ':' ∈ (normalHost host).toList ↔ ':' ∈ host.toList :=
    mem_normalHost (by decide) (by decide) (by decide)
  have hneither (cs : List Char) : (∀ c ∈ cs, c ≠ '/' ∧ c ≠ ':') ↔ '/' ∉ cs ∧ ':' ∉ cs := by
    simp only [imp_and, forall_and, ne_eq, List.forall_mem_ne']
  rw [hneither, ← hslash, ← hcolon, ← hneither]
  simp

theorem add_eq_ok_iff {host workflow : String} :
    routes.add host workflow = .ok routes' ↔
      Listable (host, workflow) ∧ normalHost host ∉ routes.table.map Prod.fst ∧
        routes'.table = Dict.insert (normalHost host) (Text.trim workflow) routes.table := by
  have hbuilt : (.ok ⟨Dict.insert (normalHost host) (Text.trim workflow) routes.table⟩ :
      Except TableFault Routes) = .ok routes' ↔
        routes'.table = Dict.insert (normalHost host) (Text.trim workflow) routes.table := by
    obtain ⟨table⟩ := routes'
    simp [eq_comm]
  unfold add
  dsimp only
  split
  · next hempty => simpa using fun h : Listable (host, workflow) => absurd hempty h.host
  · next hhost =>
    split
    · next hbare =>
      refine iff_of_false nofun fun ⟨h, _⟩ => ?_
      simp [bare_iff.mpr h.bare] at hbare
    · next hbare =>
      split
      · next hblank => simpa using fun h : Listable (host, workflow) => absurd hblank h.workflow
      · next hworkflow =>
        have hlistable : Listable (host, workflow) :=
          ⟨hhost, bare_iff.mp (eq_false_of_ne_true hbare), hworkflow⟩
        split
        · next htwice =>
          exact iff_of_false nofun fun ⟨_, hnew, _⟩ => hnew (Dict.contains_eq_true_iff.mp htwice)
        · next hnew =>
          rw [hbuilt]
          exact ⟨fun h => ⟨hlistable, fun hin => hnew (Dict.contains_eq_true_iff.mpr hin), h⟩,
            fun h => h.2.2⟩

theorem addAll_concat (routes : Routes) (entries : List (String × String))
    (entry : String × String) : addAll routes (entries ++ [entry]) =
      addAll routes entries >>= fun built => built.add entry.1 entry.2 := by
  induction entries generalizing routes with
  | nil =>
    rw [List.nil_append, addAll, addAll, ok_bind]
    cases routes.add entry.1 entry.2 <;> rfl
  | cons first rest ih =>
    rw [List.cons_append, addAll, addAll]
    cases routes.add first.1 first.2 with
    | error fault => rfl
    | ok next => exact ih next

/-- Which entries make a table, and which table they make. -/
theorem ofEntries_eq_ok_iff : ofEntries entries = .ok routes ↔
    Consistent entries ∧ routes.table = Dict.ofList (entries.map normalEntry) := by
  induction entries using List.reverseRecOn generalizing routes with
  | nil =>
    have hempty : Consistent [] := ⟨nofun, List.nodup_nil⟩
    obtain ⟨table⟩ := routes
    simp [ofEntries, addAll, hempty, Dict.ofList, eq_comm]
  | append_singleton entries entry ih =>
    have hkeys : ∀ built : Routes, Consistent entries →
        built.table = Dict.ofList (entries.map normalEntry) →
        (normalHost entry.1 ∈ built.table.map Prod.fst ↔
          normalHost entry.1 ∈ entries.map fun other => normalHost other.1) := by
      intro built h htable
      rw [htable, ((Dict.perm_ofList h.nodup_keys).map Prod.fst).mem_iff, List.map_map]
      rfl
    rw [ofEntries, addAll_concat, bind_eq_ok_iff, consistent_concat, List.map_append,
      List.map_singleton, Dict.ofList_concat]
    constructor
    · rintro ⟨built, hbuilt, hadd⟩
      obtain ⟨hentries, htable⟩ := ih.mp hbuilt
      obtain ⟨hentry, hnew, htable'⟩ := add_eq_ok_iff.mp hadd
      exact ⟨⟨hentries, hentry, mt (hkeys built hentries htable).mpr hnew⟩, htable ▸ htable'⟩
    · rintro ⟨⟨hentries, hentry, hnew⟩, htable⟩
      refine ⟨⟨Dict.ofList (entries.map normalEntry)⟩, ih.mpr ⟨hentries, rfl⟩, add_eq_ok_iff.mpr ?_⟩
      exact ⟨hentry, mt (hkeys _ hentries rfl).mp hnew, htable⟩

theorem exists_ofEntries_iff : (∃ routes, ofEntries entries = .ok routes) ↔ Consistent entries :=
  ⟨fun ⟨_, h⟩ => (ofEntries_eq_ok_iff.mp h).1, fun h => ⟨⟨_⟩, ofEntries_eq_ok_iff.mpr ⟨h, rfl⟩⟩⟩

/-- The order of the entries does not matter. -/
theorem ofEntries_perm (hperm : entries'.Perm entries) :
    ofEntries entries' = .ok routes ↔ ofEntries entries = .ok routes := by
  have hconsistent : Consistent entries' ↔ Consistent entries :=
    ⟨fun h => h.perm hperm.symm, fun h => h.perm hperm⟩
  rw [ofEntries_eq_ok_iff, ofEntries_eq_ok_iff, hconsistent]
  refine and_congr_right fun h => ?_
  rw [Dict.ofList_perm h.nodup_keys (hperm.map normalEntry).symm]

/-! ### Looking a host up -/

/-- An entry assigns the workflow to the host. -/
def Lists (entries : List (String × String)) (host workflow : String) : Prop :=
  ∃ entry ∈ entries, normalHost entry.1 = host ∧ Text.trim entry.2 = workflow

theorem find?_table (h : ofEntries entries = .ok routes) {host workflow : String} :
    Dict.find? host routes.table = some workflow ↔ Lists entries host workflow := by
  obtain ⟨hentries, htable⟩ := ofEntries_eq_ok_iff.mp h
  rw [htable, Dict.find?_ofList_eq_some_iff hentries.nodup_keys, List.mem_map]
  simp [Lists, normalEntry]

/-- Without its `www.` a host is the text after that prefix. -/
theorem eq_www_append_iff {host bare : String} : host = "www." ++ bare ↔
    "www.".toList.isPrefixOf host.toList = true ∧ String.ofList (host.toList.drop 4) = bare := by
  constructor
  · rintro rfl
    rw [String.toList_append]
    exact ⟨List.isPrefixOf_iff_prefix.mpr (List.prefix_append _ _), String.ofList_toList⟩
  · rintro ⟨hwww, rfl⟩
    obtain ⟨rest, hrest⟩ := List.isPrefixOf_iff_prefix.mp hwww
    have hdrop : ("www.".toList ++ rest).drop 4 = rest := rfl
    rw [← String.toList_inj, String.toList_append, ← hrest, hdrop]
    exact congrArg _ String.toList_ofList.symm

theorem forHost?_eq_some_iff {query workflow : String} : routes.forHost? query = some workflow ↔
    Dict.find? (normalHost query) routes.table = some workflow ∨
      Dict.find? (normalHost query) routes.table = none ∧
        ∃ bare, normalHost query = "www." ++ bare ∧
          Dict.find? bare routes.table = some workflow := by
  unfold forHost?
  dsimp only
  cases Dict.find? (normalHost query) routes.table with
  | some found => simp
  | none =>
    dsimp only
    split
    · next hwww =>
      refine ⟨fun h => .inr ⟨rfl, _, eq_www_append_iff.mpr ⟨hwww, rfl⟩, h⟩, ?_⟩
      rintro (hnone | ⟨-, bare, hquery, hfound⟩)
      · cases hnone
      · exact (eq_www_append_iff.mp hquery).2 ▸ hfound
    · next hwww =>
      refine iff_of_false nofun ?_
      rintro (hnone | ⟨-, bare, hquery, -⟩)
      · cases hnone
      · exact hwww (eq_www_append_iff.mp hquery).1

/-- A query is answered from two keys of the table. -/
theorem forHost?_congr {query : String}
    (h : ∀ key, key = normalHost query ∨ normalHost query = "www." ++ key →
      Dict.find? key routes'.table = Dict.find? key routes.table) :
    routes'.forHost? query = routes.forHost? query := by
  have hbare : ∀ bare workflow, (normalHost query = "www." ++ bare ∧
      Dict.find? bare routes'.table = some workflow) ↔
        normalHost query = "www." ++ bare ∧ Dict.find? bare routes.table = some workflow :=
    fun bare workflow => and_congr_right fun hquery => by rw [h bare (.inr hquery)]
  apply Option.ext
  intro workflow
  simp only [forHost?_eq_some_iff, h _ (.inl rfl), hbare]

theorem find?_table_of_ne {host workflow key : String}
    (hperm : entries'.Perm ((host, workflow) :: entries)) (h : ofEntries entries = .ok routes)
    (h' : ofEntries entries' = .ok routes') (hne : key ≠ normalHost host) :
    Dict.find? key routes'.table = Dict.find? key routes.table := by
  apply Option.ext
  intro found
  rw [find?_table h, find?_table h']
  simp [Lists, hperm.mem_iff, Ne.symm hne]

/-- A list of entries makes a table exactly when each entry has a bare host and a workflow and no
host is listed twice, the same table in every order. The table assigns to a host what an entry
assigns to it; a query is answered for its own host or else without its `www.`, so that an entry
more matters only to the queries for its host, with or without that prefix. -/
theorem table_follows_entries (entries : List (String × String)) :
    ((∃ routes, ofEntries entries = .ok routes) ↔ Consistent entries) ∧
    (∀ entries', entries'.Perm entries →
      ∀ routes, ofEntries entries' = .ok routes ↔ ofEntries entries = .ok routes) ∧
    ∀ routes, ofEntries entries = .ok routes →
      (∀ host workflow,
        Dict.find? host routes.table = some workflow ↔ Lists entries host workflow) ∧
      (∀ query workflow, routes.forHost? query = some workflow ↔
        Dict.find? (normalHost query) routes.table = some workflow ∨
          Dict.find? (normalHost query) routes.table = none ∧ ∃ bare,
            normalHost query = "www." ++ bare ∧ Dict.find? bare routes.table = some workflow) ∧
      ∀ host workflow entries' routes', entries'.Perm ((host, workflow) :: entries) →
        ofEntries entries' = .ok routes' → ∀ query, normalHost query ≠ normalHost host →
          normalHost query ≠ "www." ++ normalHost host →
            routes'.forHost? query = routes.forHost? query := by
  refine ⟨exists_ofEntries_iff, fun entries' hperm routes => ofEntries_perm hperm, ?_⟩
  intro routes h
  refine ⟨fun host workflow => find?_table h, fun query workflow => forHost?_eq_some_iff, ?_⟩
  intro host workflow entries' routes' hperm h' query hhost hwww
  apply forHost?_congr
  rintro key (rfl | hkey)
  · exact find?_table_of_ne hperm h h' hhost
  · refine find?_table_of_ne hperm h h' ?_
    rintro rfl
    exact hwww hkey

theorem table_follows_entries_two :
    ofEntries [("b.com", "b"), (" A.com. ", "a")] = .ok ⟨[("a.com", "a"), ("b.com", "b")]⟩ ∧
      ofEntries [(" A.com. ", "a"), ("b.com", "b")] = .ok ⟨[("a.com", "a"), ("b.com", "b")]⟩ ∧
      (Routes.mk [("a.com", "a"), ("b.com", "b")]).forHost? "WWW.a.com" = some "a" := by
  have hmade : ofEntries [("b.com", "b"), (" A.com. ", "a")] =
      .ok ⟨[("a.com", "a"), ("b.com", "b")]⟩ := by decide
  obtain ⟨-, horder, htable⟩ := table_follows_entries [("b.com", "b"), (" A.com. ", "a")]
  obtain ⟨-, hanswer, -⟩ := htable _ hmade
  exact ⟨hmade, (horder _ (.swap ..) _).mpr hmade,
    (hanswer _ _).mpr (.inr ⟨by decide, "a.com", by decide, by decide⟩)⟩

end Routes

end Jobflow.Job
