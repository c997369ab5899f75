import Jobflow.Cookie.Store
import Jobflow.Proofs.Files.Paths
import Jobflow.Proofs.Success

/-!
The files of sites. A site's cookies lie in the directory of the store under a name that is made
from the site, and so does the file that takes their place; sites whose names come out different
have files of their own.
-/

namespace Jobflow.Cookie

open Jobflow.Files
open Jobflow.Workflow (Context)

/-! ### Names of files -/

namespace Store

variable {store : Store} {site other : String}

/-- The site as it stands in the name of its file. -/
def fileName (site : String) : List Char := site.toList.map fileChar

/-- The name of the file that is written before it takes the place of the site's file. -/
def temporaryName (site : String) : List Char :=
  (if site = "" then ".json".toList else fileName site) ++ ".json.tmp".toList

theorem fileChar_ne_slash (c : Char) : fileChar c ≠ '/' := by
  unfold fileChar
  split
  · rintro rfl
    contradiction
  · decide

theorem slashless_fileName (site : String) : ∀ c ∈ fileName site, c ≠ '/' := by
  intro c hc
  obtain ⟨d, -, rfl⟩ := List.mem_map.mp hc
  exact fileChar_ne_slash d

theorem isName_file (site : String) : IsName (fileName site ++ ".json".toList) :=
  isName_of_suffix (slashless_fileName site) (by simp) (by decide)

theorem isName_temporary (site : String) : IsName (temporaryName site) := by
  refine isName_of_suffix ?_ (by simp) (by decide)
  split
  · simp
  · exact slashless_fileName site

theorem pathFor_eq (store : Store) (site : String) :
    store.pathFor site = store.directory.join
      (String.ofList (fileName site ++ ".json".toList)) := by
  rw [pathFor, String.ofList_append]
  rfl

theorem stem_file (site : String) :
    Path.stem (String.ofList (fileName site ++ ".json".toList)) ++ "." ++ "json.tmp" =
      String.ofList (temporaryName site) := by
  have hreverse : (fileName site ++ ".json".toList).reverse =
      ['n', 'o', 's', 'j'] ++ '.' :: (fileName site).reverse := by simp
  have hdrop : (['n', 'o', 's', 'j'] ++ '.' :: (fileName site).reverse).dropWhile (· != '.') =
      '.' :: (fileName site).reverse := by
    simp
  have hsite : (fileName site).reverse = [] ↔ site = "" := by
    rw [List.reverse_eq_nil_iff, fileName, List.map_eq_nil_iff, String.toList_eq_nil_iff]
  unfold Path.stem temporaryName
  rw [String.toList_ofList, hreverse]
  dsimp only
  rw [hdrop]
  simp only [hsite, List.reverse_reverse]
  split
  · next h =>
    subst h
    decide
  · simp [← String.toList_inj]

/-- A file that takes the place of another has a name of its own. -/
theorem temporaryName_ne_file (site other : String) :
    temporaryName site ≠ fileName other ++ ".json".toList := by
  intro h
  have hlast := congrArg List.getLast? h
  simp [temporaryName, List.getLast?_append] at hlast

theorem temporaryFor_eq (store : Store) (site : String) :
    store.temporaryFor site = store.directory.join (String.ofList (temporaryName site)) := by
  have hlast : (fileName site ++ ".json".toList).getLast? ≠ some '.' := by
    simp [List.getLast?_append]
  rw [temporaryFor, pathFor_eq]
  exact Path.withExtension_join (isName_file site) hlast (isName_temporary site) (stem_file site)

/-! ### Places of files -/

/-- Where the cookies of a site lie. -/
def place (store : Store) (site : String) : Place := Path.place (store.pathFor site)

/-- Where the file is written that takes their place. -/
def temporaryPlace (store : Store) (site : String) : Place := Path.place (store.temporaryFor site)

theorem place_eq : store.place site =
    Path.place store.directory ++ [String.ofList (fileName site ++ ".json".toList)] := by
  rw [place, pathFor_eq, Path.place_join (isName_file site)]

theorem temporaryPlace_eq : store.temporaryPlace site =
    Path.place store.directory ++ [String.ofList (temporaryName site)] := by
  rw [temporaryPlace, temporaryFor_eq, Path.place_join (isName_temporary site)]

/-- No site's cookies lie where one writes a file before. -/
theorem temporaryPlace_ne_place : store.temporaryPlace site ≠ store.place other := by
  rw [place_eq, temporaryPlace_eq]
  intro h
  exact temporaryName_ne_file site other (String.ofList_injective
    (List.cons.inj (List.append_cancel_left h)).1)

/-- Sites with a name whose files have different names. -/
structure Apart (site other : String) : Prop where
  named : site ≠ ""
  otherNamed : other ≠ ""
  names : fileName site ≠ fileName other

theorem Apart.symm (h : Apart site other) : Apart other site :=
  ⟨h.otherNamed, h.named, h.names.symm⟩

theorem Apart.place_ne (h : Apart site other) : store.place site ≠ store.place other := by
  rw [place_eq, place_eq]
  intro heq
  have hnames := String.ofList_injective (List.cons.inj (List.append_cancel_left heq)).1
  exact h.names (List.append_cancel_right hnames)

theorem Apart.temporaryPlace_ne (h : Apart site other) :
    store.temporaryPlace site ≠ store.temporaryPlace other := by
  rw [temporaryPlace_eq, temporaryPlace_eq]
  intro heq
  have hnames := String.ofList_injective (List.cons.inj (List.append_cancel_left heq)).1
  rw [temporaryName, temporaryName, if_neg h.named, if_neg h.otherNamed] at hnames
  exact h.names (List.append_cancel_right hnames)

end Store

/-! ### Sites of runs -/

section
open Url

variable {cs host : List Char}

theorem bracketedHost_ne_nil (h : bracketedHost cs = .ok host) : host ≠ [] := by
  unfold bracketedHost at h
  split at h
  · obtain rfl := Except.ok.inj h
    exact List.cons_ne_nil _ _
  · cases h

theorem specialHost_ne_nil (h : specialHost cs = .ok host) : host ≠ [] := by
  unfold specialHost at h
  split at h
  · exact bracketedHost_ne_nil h
  · dsimp only at h
    split at h
    · cases h
    · split at h
      · cases h
      · cases h
      · next domain hne _ =>
        split at h
        · split at h
          · obtain rfl := Except.ok.inj h
            simp [ipv4Text]
          · cases h
        · obtain rfl := Except.ok.inj h
          rintro rfl
          exact hne rfl

theorem authorityHost_ne_nil {web : Bool} (h : authorityHost web cs = .ok (some host)) :
    host ≠ [] := by
  unfold authorityHost at h
  obtain ⟨⟨rest, hasUser⟩, -, h⟩ := bind_eq_ok_iff.mp h
  obtain ⟨-, h⟩ := eq_ok_of_guard h
  have hfound : ∀ found : List Char, (if found = [] then
      if hasUser then .error .emptyHost else pure none else pure (some found) :
        Except UrlError (Option (List Char))) = .ok (some host) → host ≠ [] := by
    intro found h
    split at h
    · split at h <;> cases h
    · next hne =>
      obtain rfl := Option.some.inj (Except.ok.inj h)
      exact hne
  dsimp only at h
  -- whatever the host and the port are, the host is looked at in the end
  split at h
  all_goals
    obtain ⟨found, -, h⟩ := bind_eq_ok_iff.mp h
    split at h
    all_goals
      obtain ⟨-, -, h⟩ := bind_eq_ok_iff.mp h
      exact hfound _ h

theorem fileHost_ne_nil (h : fileHost cs = .ok (some host)) : host ≠ [] := by
  unfold fileHost at h
  split at h
  · split at h
    · dsimp only at h
      split at h
      · cases h
      · obtain ⟨found, hfound, h⟩ := bind_eq_ok_iff.mp h
        have hhost : host = found := by
          split at h
          · cases h
          · split at h
            · split at h
              · cases h
              · exact (Option.some.inj (Except.ok.inj h)).symm
            · split at h
              · cases h
              · exact (Option.some.inj (Except.ok.inj h)).symm
            · exact (Option.some.inj (Except.ok.inj h)).symm
        rw [hhost]
        exact specialHost_ne_nil hfound
    · cases h
  · cases h

theorem parseHost_ne_empty {text found : String} (h : parseHost text = .ok (some found)) :
    found ≠ "" := by
  unfold parseHost at h
  dsimp only at h
  split at h
  · cases h
  · have hfound : ∀ parts : Option (List Char), (∀ host, parts = some host → host ≠ []) →
        parts.map String.ofList = some found → found ≠ "" := by
      intro parts hparts hmap
      obtain ⟨host, hhost, rfl⟩ := Option.map_eq_some_iff.mp hmap
      exact fun hempty => hparts host hhost (String.ofList_eq_empty_iff.mp hempty)
    split at h
    · obtain ⟨parts, hparts, h⟩ := bind_eq_ok_iff.mp h
      exact hfound parts (fun host hhost => authorityHost_ne_nil (hhost ▸ hparts)) (Except.ok.inj h)
    · obtain ⟨parts, hparts, h⟩ := bind_eq_ok_iff.mp h
      exact hfound parts (fun host hhost => fileHost_ne_nil (hhost ▸ hparts)) (Except.ok.inj h)
    · split at h
      · obtain ⟨parts, hparts, h⟩ := bind_eq_ok_iff.mp h
        exact hfound parts (fun host hhost => authorityHost_ne_nil (hhost ▸ hparts))
          (Except.ok.inj h)
      · cases h

end

/-- A run belongs to a site with a name. -/
theorem siteOf_ne_empty (ctx : Context) : siteOf ctx ≠ "" := by
  have hdefault : defaultSite ≠ "" := by decide
  unfold siteOf
  split
  · exact hdefault
  · split
    · next hhost =>
      intro hempty
      have hlower := List.map_eq_nil_iff.mp (String.ofList_eq_empty_iff.mp hempty)
      exact parseHost_ne_empty hhost (String.toList_eq_nil_iff.mp hlower)
    · exact hdefault

end Jobflow.Cookie
