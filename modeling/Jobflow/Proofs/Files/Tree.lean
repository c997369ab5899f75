import Jobflow.Files.Tree
import Jobflow.Proofs.Success

/-!
The places of a tree after an operation on it. A path leads to the same place as long as the
directories on its way stay what they are, so what one operation puts or takes away at one
place shows only there.
-/

namespace Jobflow.Files.Tree

variable {tree tree' : Tree} {place other : Place} {entry : Entry} {path : Path}

/-! ### Single places -/

theorem entryAt?_of_isAround (h : place.isAround ∨ place = ["/"]) :
    tree.entryAt? place = some .directory := if_pos h

theorem not_isAround_of_entryAt? (h : tree.entryAt? place ≠ some .directory) :
    ¬ (place.isAround ∨ place = ["/"]) := fun haround => h (entryAt?_of_isAround haround)

theorem entryAt?_eq_find? (h : ¬ (place.isAround ∨ place = ["/"])) :
    tree.entryAt? place = (tree.find? fun binding => binding.1 = place).map Prod.snd := if_neg h

theorem entryAt?_put_self (h : tree.entryAt? place ≠ some .directory) :
    (tree.put place entry).entryAt? place = some entry := by
  rw [entryAt?_eq_find? (not_isAround_of_entryAt? h)]
  unfold put
  split
  · next hbound =>
    clear h
    induction tree with
    | nil => simp at hbound
    | cons binding rest ih =>
      by_cases hhere : binding.1 = place
      · simp [hhere]
      · have hrest : rest.any fun binding => binding.1 = place := by simpa [hhere] using hbound
        simpa [hhere] using ih hrest
  · next hfree =>
    have hnone : tree.find? (fun binding => binding.1 = place) = none := by
      rw [List.find?_eq_none]
      rintro ⟨key, held⟩ hmem
      simp only [List.any_eq_true, not_exists, not_and] at hfree
      exact hfree _ hmem
    simp [List.find?_append, hnone]

theorem entryAt?_put_other (h : other ≠ place) :
    (tree.put place entry).entryAt? other = tree.entryAt? other := by
  by_cases haround : other.isAround ∨ other = ["/"]
  · rw [entryAt?_of_isAround haround, entryAt?_of_isAround haround]
  rw [entryAt?_eq_find? haround, entryAt?_eq_find? haround]
  unfold put
  split
  · congr 1
    rw [List.find?_map]
    have hsame : (fun binding : Place × Entry => decide (binding.1 = other)) ∘
        (fun binding => if binding.1 = place then (place, entry) else binding) =
          fun binding => decide (binding.1 = other) := by
      funext binding
      by_cases hhere : binding.1 = place <;> simp [hhere, h.symm]
    rw [hsame]
    cases hfound : tree.find? fun binding => binding.1 = other with
    | none => rfl
    | some binding =>
      have hother : binding.1 = other := by simpa using List.find?_some hfound
      simp [hother, h]
  · simp [List.find?_append, h.symm]

theorem entryAt?_remove_other (h : other ≠ place) :
    (tree.remove place).entryAt? other = tree.entryAt? other := by
  by_cases haround : other.isAround ∨ other = ["/"]
  · rw [entryAt?_of_isAround haround, entryAt?_of_isAround haround]
  rw [entryAt?_eq_find? haround, entryAt?_eq_find? haround, remove, List.find?_filter]
  congr 2
  funext binding
  by_cases hhere : binding.1 = other <;> simp [hhere, h]

theorem entryAt?_remove_self (h : tree.entryAt? place ≠ some .directory) :
    (tree.remove place).entryAt? place = none := by
  rw [entryAt?_eq_find? (not_isAround_of_entryAt? h), Option.map_eq_none_iff, List.find?_eq_none]
  intro binding hmem
  have hother : binding.1 ≠ place := by simpa [remove] using (List.mem_filter.mp hmem).2
  simpa using hother

/-! ### Following paths -/

/-- The directories of a tree are directories of the other tree. -/
def KeepsDirectories (tree tree' : Tree) : Prop :=
  ∀ place, tree.entryAt? place = some .directory → tree'.entryAt? place = some .directory

theorem keepsDirectories_put (h : tree.entryAt? place ≠ some .directory) :
    KeepsDirectories tree (tree.put place entry) := by
  intro other hother
  have hne : other ≠ place := by
    rintro rfl
    exact h hother
  rw [entryAt?_put_other hne, hother]

theorem keepsDirectories_remove (h : tree.entryAt? place ≠ some .directory) :
    KeepsDirectories tree (tree.remove place) := by
  intro other hother
  have hne : other ≠ place := by
    rintro rfl
    exact h hother
  rw [entryAt?_remove_other hne, hother]

theorem follow_of_keepsDirectories (hkeeps : KeepsDirectories tree tree') {start : Place}
    {names : List String} (h : tree.follow start names = .ok place) :
    tree'.follow start names = .ok place := by
  induction names generalizing start with
  | nil => exact h
  | cons name rest ih =>
    unfold follow at h ⊢
    split at h
    · cases h
    · cases h
    · next hstart =>
      rw [hkeeps start hstart]
      dsimp only
      split at h
      · cases h
      · next hlength =>
        rw [if_neg hlength]
        split at h
        · next hup =>
          rw [if_pos hup]
          exact ih h
        · next hdown =>
          rw [if_neg hdown]
          exact ih h

/-- A text that can be followed at all. -/
def Legal (path : Path) : Prop :=
  path.toList.contains '\x00' = false ∧ path ≠ "" ∧ path.utf8ByteSize < 4096

/-- A path that insists on a directory does not lead to a file. -/
def Suits (tree : Tree) (place : Place) (path : Path) : Prop :=
  path.endsInSlash = true → ∀ content executable,
    tree.entryAt? place ≠ some (.file content executable)

theorem locate_eq_ok_iff : tree.locate path = .ok place ↔
    Legal path ∧ tree.follow [] path.components = .ok place ∧ Suits tree place path := by
  unfold locate Legal
  by_cases hnul : path.toList.contains '\x00'
  · rw [if_pos hnul]
    simp only [reduceCtorEq, hnul, Bool.true_eq_false, false_and]
  by_cases hempty : path = ""
  · rw [if_neg hnul, if_pos hempty]
    simp only [reduceCtorEq, hempty, ne_eq, not_true_eq_false, false_and, and_false]
  by_cases hlong : 4096 ≤ path.utf8ByteSize
  · rw [if_neg hnul, if_neg hempty, if_pos hlong]
    simp only [reduceCtorEq, Nat.not_lt.mpr hlong, and_false, false_and]
  rw [if_neg hnul, if_neg hempty, if_neg hlong, bind_eq_ok_iff]
  have hlegal : path.toList.contains '\x00' = false ∧ path ≠ "" ∧ path.utf8ByteSize < 4096 :=
    ⟨by simpa using hnul, hempty, Nat.lt_of_not_le hlong⟩
  constructor
  · rintro ⟨found, hfollow, h⟩
    split at h
    · cases h
    · next hsuits =>
      obtain rfl := Except.ok.inj h
      refine ⟨hlegal, hfollow, ?_⟩
      intro hslash content executable hfile
      exact hsuits content executable hfile hslash
  · rintro ⟨-, hfollow, hsuits⟩
    refine ⟨place, hfollow, ?_⟩
    split
    · next hfile hslash => exact absurd hfile (hsuits hslash _ _)
    · rfl

theorem locate_of_keepsDirectories (hkeeps : KeepsDirectories tree tree')
    (h : tree.locate path = .ok place) (hsuits : Suits tree' place path) :
    tree'.locate path = .ok place := by
  obtain ⟨hlegal, hfollow, -⟩ := locate_eq_ok_iff.mp h
  exact locate_eq_ok_iff.mpr ⟨hlegal, follow_of_keepsDirectories hkeeps hfollow, hsuits⟩

/-! ### Files -/

/-- The path leads to a file with this content. -/
def Holds (tree : Tree) (path : Path) (content : ByteArray) : Prop :=
  ∃ place executable, tree.locate path = .ok place ∧
    tree.entryAt? place = some (.file content executable)

theorem read_eq_ok_iff {content : ByteArray} :
    tree.read path = .ok content ↔ tree.Holds path content := by
  unfold read Holds
  rw [bind_eq_ok_iff]
  constructor
  · rintro ⟨place, hplace, h⟩
    split at h
    · cases h
    · cases h
    · next hfile =>
      obtain rfl := Except.ok.inj h
      exact ⟨place, _, hplace, hfile⟩
  · rintro ⟨place, executable, hplace, hfile⟩
    refine ⟨place, hplace, ?_⟩
    rw [hfile]
    rfl

theorem fromUTF8?_eq_some_iff {content : ByteArray} {text : String} :
    String.fromUTF8? content = some text ↔ content = text.toUTF8 := by
  unfold String.fromUTF8?
  constructor
  · intro h
    split at h
    · obtain rfl := Option.some.inj h
      rfl
    · cases h
  · rintro rfl
    exact dif_pos text.isValidUTF8

theorem readText_eq_ok_iff {text : String} :
    tree.readText path = .ok text ↔ tree.Holds path text.toUTF8 := by
  unfold readText
  rw [bind_eq_ok_iff, ← read_eq_ok_iff]
  constructor
  · rintro ⟨content, hcontent, h⟩
    split at h
    · next hdecoded =>
      obtain rfl := Except.ok.inj h
      rw [hcontent, fromUTF8?_eq_some_iff.mp hdecoded]
    · cases h
  · intro h
    refine ⟨_, h, ?_⟩
    rw [fromUTF8?_eq_some_iff.mpr rfl]
    rfl

theorem Holds.not_endsInSlash {content : ByteArray} (h : tree.Holds path content) :
    path.endsInSlash = false := by
  obtain ⟨place, executable, hplace, hfile⟩ := h
  obtain ⟨-, -, hsuits⟩ := locate_eq_ok_iff.mp hplace
  rw [← Bool.not_eq_true]
  intro hslash
  exact hsuits hslash _ _ hfile

theorem suits_of_not_endsInSlash (h : path.endsInSlash = false) : Suits tree place path := by
  intro hslash
  rw [h] at hslash
  cases hslash

/-- Writing a file where there was no directory leaves a file at every path to a file. -/
theorem Holds.put_file {content written : ByteArray} {executable : Bool}
    (h : tree.Holds path content) (hplace : tree.entryAt? place ≠ some .directory) :
    ∃ content', (tree.put place (.file written executable)).Holds path content' := by
  have hslash := h.not_endsInSlash
  obtain ⟨other, x, hother, hfile⟩ := h
  have hkeeps : KeepsDirectories tree (tree.put place (.file written executable)) :=
    keepsDirectories_put hplace
  have hlocate := locate_of_keepsDirectories hkeeps hother (suits_of_not_endsInSlash hslash)
  by_cases hsame : other = place
  · subst hsame
    exact ⟨written, other, executable, hlocate, entryAt?_put_self hplace⟩
  · exact ⟨content, other, x, hlocate, (entryAt?_put_other hsame).trans hfile⟩

/-- The file that was put at a place is found by the paths to the place. -/
theorem holds_put_self {content : ByteArray} {executable : Bool}
    (hlocate : tree.locate path = .ok place)
    (hslash : path.endsInSlash = false) (hplace : tree.entryAt? place ≠ some .directory) :
    (tree.put place (.file content executable)).Holds path content :=
  ⟨place, executable, locate_of_keepsDirectories (keepsDirectories_put hplace) hlocate
    (suits_of_not_endsInSlash hslash), entryAt?_put_self hplace⟩

/-! ### Operations -/

theorem create_spec (h : tree.create path = .ok tree') :
    ∃ place executable, tree.locate path = .ok place ∧ path.endsInSlash = false ∧
      tree.entryAt? place ≠ some .directory ∧
      tree' = tree.put place (.file ByteArray.empty executable) := by
  unfold create at h
  obtain ⟨place, hplace, h⟩ := bind_eq_ok_iff.mp h
  split at h
  · cases h
  · next content executable hfile =>
    obtain rfl := Except.ok.inj h
    have hslash : path.endsInSlash = false :=
      Holds.not_endsInSlash ⟨place, executable, hplace, hfile⟩
    exact ⟨place, executable, hplace, hslash, by simp [hfile], rfl⟩
  · next hnone =>
    split at h
    · cases h
    · next hslash =>
      split at h
      · obtain rfl := Except.ok.inj h
        exact ⟨place, false, hplace, by simpa using hslash, by simp [hnone], rfl⟩
      · cases h
      · cases h

theorem append_of_holds {content : ByteArray} (h : tree.Holds path content) (bytes : ByteArray) :
    ∃ place executable, tree.locate path = .ok place ∧ tree.entryAt? place ≠ some .directory ∧
      tree.append path bytes = .ok (tree.put place (.file (content ++ bytes) executable)) := by
  obtain ⟨place, executable, hplace, hfile⟩ := h
  refine ⟨place, executable, hplace, by simp [hfile], ?_⟩
  simp [append, hplace, hfile]

theorem rename_of_holds {content old : ByteArray} {target : Path} (h : tree.Holds path content)
    (htarget : tree.Holds target old) : ∃ tree', tree.rename path target = .ok tree' := by
  obtain ⟨here, x, hhere, hfile⟩ := h
  obtain ⟨there, y, hthere, hold⟩ := htarget
  simp [rename, hhere, hfile, hthere, hold]

/-- The tree after a file went from a path to another, or stayed since both lead to it. -/
inductive Moves (tree : Tree) (path target : Path) : Tree → Prop
  | stays {place : Place} {content : ByteArray} {executable : Bool}
      (hhere : tree.locate path = .ok place) (hthere : tree.locate target = .ok place)
      (hfile : tree.entryAt? place = some (.file content executable)) : Moves tree path target tree
  | goes {here there : Place} {content : ByteArray} {executable : Bool}
      (hhere : tree.locate path = .ok here) (hthere : tree.locate target = .ok there)
      (hne : here ≠ there) (hfile : tree.entryAt? here = some (.file content executable))
      (hfree : tree.entryAt? there ≠ some .directory) (hslash : target.endsInSlash = false) :
      Moves tree path target ((tree.remove here).put there (.file content executable))

theorem moves_of_rename {target : Path} (h : tree.rename path target = .ok tree') :
    Moves tree path target tree' := by
  unfold rename at h
  obtain ⟨here, hhere, h⟩ := bind_eq_ok_iff.mp h
  split at h
  · cases h
  · cases h
  · next entry hdirectory hfile =>
    obtain ⟨content, executable, rfl⟩ : ∃ content executable, entry = .file content executable := by
      cases entry with
      | directory => exact absurd rfl hdirectory
      | file content executable => exact ⟨content, executable, rfl⟩
    obtain ⟨there, hthere, h⟩ := bind_eq_ok_iff.mp h
    split at h
    · cases h
    · next old x hold =>
      have hslash : target.endsInSlash = false := Holds.not_endsInSlash ⟨there, x, hthere, hold⟩
      obtain rfl := Except.ok.inj h
      split
      · next hsame =>
        subst hsame
        exact .stays hhere hthere hfile
      · next hne => exact .goes hhere hthere hne hfile (by simp [hold]) hslash
    · next hnone =>
      have hne : here ≠ there := by
        rintro rfl
        cases hfile.symm.trans hnone
      split at h
      · cases h
      · next hslash =>
        split at h
        · obtain rfl := Except.ok.inj h
          exact .goes hhere hthere hne hfile (by simp [hnone]) (by simpa using hslash)
        · cases h
        · cases h

theorem exists_holds_of_rename {target : Path} (h : tree.rename path target = .ok tree') :
    ∃ content, tree.Holds path content := by
  cases moves_of_rename h with
  | stays hhere _ hfile => exact ⟨_, _, _, hhere, hfile⟩
  | goes hhere _ _ hfile => exact ⟨_, _, _, hhere, hfile⟩

theorem rename_spec {content : ByteArray} {target : Path} (h : tree.Holds path content)
    (hrename : tree.rename path target = .ok tree') : tree'.Holds target content := by
  obtain ⟨place, executable, hplace, hheld⟩ := h
  cases moves_of_rename hrename with
  | stays hhere hthere _ =>
    cases hplace.symm.trans hhere
    exact ⟨place, executable, hthere, hheld⟩
  | @goes here there _ _ hhere hthere hne hfile hfree hslash =>
    cases hplace.symm.trans hhere
    cases hheld.symm.trans hfile
    have hnotHere : tree.entryAt? place ≠ some .directory := by simp [hheld]
    have hentry : (tree.remove place).entryAt? there ≠ some .directory := by
      rwa [entryAt?_remove_other hne.symm]
    exact holds_put_self (locate_of_keepsDirectories (keepsDirectories_remove hnotHere) hthere
      (suits_of_not_endsInSlash hslash)) hslash hentry

/-! ### Making directories -/

/-- Nothing that was in the first tree is changed in the second. -/
def Extends (tree tree' : Tree) : Prop :=
  ∀ place entry, tree.entryAt? place = some entry → tree'.entryAt? place = some entry

theorem Extends.refl (tree : Tree) : Extends tree tree := fun _ _ h => h

theorem Extends.trans {tree'' : Tree} (h : Extends tree tree') (h' : Extends tree' tree'') :
    Extends tree tree'' := fun place entry hplace => h' place entry (h place entry hplace)

theorem Holds.extends {content : ByteArray} (h : tree.Holds path content)
    (hext : Extends tree tree') :
    tree'.Holds path content := by
  have hslash := h.not_endsInSlash
  obtain ⟨place, executable, hplace, hfile⟩ := h
  exact ⟨place, executable,
    locate_of_keepsDirectories (fun other hother => hext other _ hother) hplace
      (suits_of_not_endsInSlash hslash), hext place _ hfile⟩

theorem extends_makeDirectory (h : tree.makeDirectory path = .ok tree') : Extends tree tree' := by
  unfold makeDirectory at h
  obtain ⟨place, hplace, h⟩ := bind_eq_ok_iff.mp h
  split at h
  · cases h
  · next hnone =>
    split at h
    · obtain rfl := Except.ok.inj h
      intro other entry hother
      have hne : other ≠ place := by
        rintro rfl
        simp [hnone] at hother
      rw [entryAt?_put_other hne, hother]
    · cases h
    · cases h

/-- What every single directory that is made does to a tree, all of them together do. -/
theorem rel_of_makeDirectories {Rel : Tree → Tree → Prop} (hrefl : ∀ tree, Rel tree tree)
    (htrans : ∀ {tree tree' tree''}, Rel tree tree' → Rel tree' tree'' → Rel tree tree'')
    (hstep : ∀ {tree path tree'}, tree.makeDirectory path = .ok tree' → Rel tree tree')
    (h : tree.makeDirectories path = .ok tree') : Rel tree tree' := by
  unfold makeDirectories at h
  generalize path.toList.length + 1 = fuel at h
  induction fuel generalizing path tree' with
  | zero => cases h
  | succ fuel ih =>
    unfold makeDirectoriesUpTo at h
    split at h
    · obtain rfl := Except.ok.inj h
      exact hrefl _
    · extract_lets finish at h
      have hfinish : ∀ middle, Rel tree middle → finish middle = .ok tree' → Rel tree tree' := by
        intro middle hmiddle h
        simp only [finish] at h
        split at h
        · next hmade =>
          obtain rfl := Except.ok.inj h
          exact htrans hmiddle (hstep hmade)
        · split at h
          · obtain rfl := Except.ok.inj h
            exact hmiddle
          · cases h
      split at h
      · split at h
        · obtain ⟨middle, hmiddle, h⟩ := bind_eq_ok_iff.mp h
          exact hfinish middle (ih hmiddle) h
        · cases h
      · exact hfinish tree (hrefl tree) h

/-- The path leads to a directory. -/
def Opens (tree : Tree) (path : Path) : Prop :=
  ∃ place, tree.follow [] path.components = .ok place ∧ tree.entryAt? place = some .directory

theorem follow_append (start : Place) (names rest : List String) :
    tree.follow start (names ++ rest) = tree.follow start names >>= fun middle =>
      tree.follow middle rest := by
  induction names generalizing start with
  | nil => rfl
  | cons name names ih =>
    rw [List.cons_append, follow, follow]
    split
    · rfl
    · rfl
    · split
      · rfl
      · split <;> exact ih _

theorem opens_of_follow_append {name : String}
    (h : tree.follow [] (path.components ++ [name]) = .ok place) : tree.Opens path := by
  rw [follow_append] at h
  obtain ⟨middle, hmiddle, h⟩ := bind_eq_ok_iff.mp h
  unfold follow at h
  split at h
  · cases h
  · cases h
  · next hdirectory => exact ⟨middle, hmiddle, hdirectory⟩

theorem makeDirectory_of_opens (hopens : tree.Opens path) (hpath : path ≠ "") :
    ∃ cause, tree.makeDirectory path = .error cause ∧ cause ≠ .notFound := by
  obtain ⟨place, hfollow, hdirectory⟩ := hopens
  unfold makeDirectory locate
  rw [if_neg hpath, hfollow]
  split
  · exact ⟨.nulInPath, rfl, nofun⟩
  · split
    · exact ⟨.nameTooLong, rfl, nofun⟩
    · exact ⟨.alreadyExists, by simp [bind, Except.bind, pure, Except.pure, hdirectory], nofun⟩

/-- To make a directory that is there changes nothing. -/
theorem makeDirectories_of_opens (hopens : tree.Opens path)
    (h : tree.makeDirectories path = .ok tree') : tree' = tree := by
  unfold makeDirectories makeDirectoriesUpTo at h
  split at h
  · exact (Except.ok.inj h).symm
  · next hpath =>
    obtain ⟨cause, hcause, hfound⟩ := makeDirectory_of_opens hopens hpath
    rw [hcause] at h
    extract_lets finish at h
    have hfinish : finish tree = .ok tree' → tree' = tree := by
      intro hend
      simp only [finish, hcause] at hend
      split at hend
      · exact (Except.ok.inj hend).symm
      · cases hend
    split at h
    · next hmissing => exact absurd (Except.error.inj hmissing) hfound
    · exact hfinish h

theorem extends_makeDirectories (h : tree.makeDirectories path = .ok tree') : Extends tree tree' :=
  rel_of_makeDirectories Extends.refl Extends.trans extends_makeDirectory h

end Jobflow.Files.Tree
