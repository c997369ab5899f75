import Jobflow.Proofs.Files.Replacing

/-!
The place that a path names. There are no links, so it can be told from the text of the path,
and an operation shows only at the places of the paths it writes: at every other place the files
stay what they are, and no directory goes away.
-/

namespace Jobflow.Files

/-! ### Places of paths -/

/-- Where a name leads from a directory. -/
def Place.down (place : Place) (name : String) : Place :=
  if name = ".." then place.above else place ++ [name]

/-- The place a path leads to, if it leads anywhere. -/
def Path.place (path : Path) : Place := (Path.components path).foldl Place.down []

namespace Tree

variable {tree tree' tree'' : Tree} {place other : Place} {path target : Path} {content : ByteArray}

theorem foldl_down_of_follow {start : Place} {names : List String}
    (h : tree.follow start names = .ok place) : names.foldl Place.down start = place := by
  induction names generalizing start with
  | nil => exact Except.ok.inj h
  | cons name rest ih =>
    unfold follow at h
    split at h
    · cases h
    · cases h
    · split at h
      · cases h
      · rw [List.foldl_cons, Place.down]
        split at h
        · next hup =>
          rw [if_pos hup]
          exact ih h
        · next hdown =>
          rw [if_neg hdown]
          exact ih h

theorem place_of_locate (h : tree.locate path = .ok place) : Path.place path = place :=
  foldl_down_of_follow (locate_eq_ok_iff.mp h).2.1

/-- The file at a place, if there is one. -/
def fileAt? (tree : Tree) (place : Place) : Option ByteArray :=
  match tree.entryAt? place with
  | some (.file content _) => some content
  | _ => none

theorem fileAt?_eq_some_iff :
    tree.fileAt? place = some content ↔
      ∃ executable, tree.entryAt? place = some (.file content executable) := by
  unfold fileAt?
  split
  · next found executable hfile =>
    simp [hfile]
  · next hno =>
    refine ⟨nofun, fun ⟨executable, hfile⟩ => absurd hfile (hno content executable)⟩

theorem fileAt?_congr (h : tree'.entryAt? place = tree.entryAt? place) :
    tree'.fileAt? place = tree.fileAt? place := by
  rw [fileAt?, fileAt?, h]

theorem Holds.fileAt? (h : tree.Holds path content) :
    tree.fileAt? (Path.place path) = some content := by
  obtain ⟨place, executable, hplace, hfile⟩ := h
  rw [place_of_locate hplace]
  exact fileAt?_eq_some_iff.mpr ⟨executable, hfile⟩

theorem not_holds_nil (path : Path) : ¬ Holds [] path content := by
  rintro ⟨place, executable, -, hfile⟩
  unfold entryAt? at hfile
  split at hfile <;> cases hfile

/-- A file at the place of the path is found by the path: the directories on the way to it are
there. -/
def Reaches (tree : Tree) (path : Path) : Prop :=
  ∀ content, tree.fileAt? (Path.place path) = some content → tree.Holds path content

theorem Holds.reaches (h : tree.Holds path content) : tree.Reaches path := by
  intro found hfound
  obtain rfl := Option.some.inj (h.fileAt?.symm.trans hfound)
  exact h

theorem reaches_nil (path : Path) : Reaches [] path := by
  intro content hcontent
  obtain ⟨executable, hfile⟩ := fileAt?_eq_some_iff.mp hcontent
  unfold entryAt? at hfile
  split at hfile <;> cases hfile

/-! ### What is spared -/

/-- At a place the second tree has the same file as the first, or like the first none, and all
directories of the first are still there. -/
structure Spares (place : Place) (tree tree' : Tree) : Prop where
  file : tree'.fileAt? place = tree.fileAt? place
  directories : KeepsDirectories tree tree'

theorem Spares.refl (place : Place) (tree : Tree) : Spares place tree tree :=
  ⟨rfl, fun _ h => h⟩

theorem Spares.trans (h : Spares place tree tree') (h' : Spares place tree' tree'') :
    Spares place tree tree'' :=
  ⟨h'.file.trans h.file, fun other hother => h'.directories other (h.directories other hother)⟩

theorem Spares.holds (h : Spares (Path.place path) tree tree') (hholds : tree.Holds path content) :
    tree'.Holds path content := by
  have hslash := hholds.not_endsInSlash
  have hfile := h.file.trans hholds.fileAt?
  obtain ⟨place, executable, hplace, -⟩ := hholds
  rw [place_of_locate hplace] at hfile
  obtain ⟨executable', hentry⟩ := fileAt?_eq_some_iff.mp hfile
  exact ⟨place, executable', locate_of_keepsDirectories h.directories hplace
    (suits_of_not_endsInSlash hslash), hentry⟩

theorem Spares.reaches (h : Spares (Path.place path) tree tree') (hreaches : tree.Reaches path) :
    tree'.Reaches path := by
  intro content hcontent
  exact h.holds (hreaches content (h.file.symm.trans hcontent))

/-- At a place the second tree has what the first has there, and all directories of the first are
still there. -/
structure Leaves (place : Place) (tree tree' : Tree) : Prop where
  entry : tree'.entryAt? place = tree.entryAt? place
  directories : KeepsDirectories tree tree'

theorem Leaves.refl (place : Place) (tree : Tree) : Leaves place tree tree := ⟨rfl, fun _ h => h⟩

theorem Leaves.trans (h : Leaves place tree tree') (h' : Leaves place tree' tree'') :
    Leaves place tree tree'' :=
  ⟨h'.entry.trans h.entry, fun other hother => h'.directories other (h.directories other hother)⟩

theorem Leaves.spares (h : Leaves place tree tree') : Spares place tree tree' :=
  ⟨fileAt?_congr h.entry, h.directories⟩

theorem Leaves.locate (h : Leaves place tree tree') (hplace : tree.locate path = .ok place) :
    tree'.locate path = .ok place := by
  obtain ⟨-, -, hsuits⟩ := locate_eq_ok_iff.mp hplace
  refine locate_of_keepsDirectories h.directories hplace fun hslash content executable => ?_
  rw [h.entry]
  exact hsuits hslash content executable

theorem Leaves.readText (h : Leaves place tree tree') (hplace : tree.locate path = .ok place) :
    tree'.readText path = tree.readText path := by
  have hread : tree'.read path = tree.read path := by
    rw [read, read, hplace, h.locate hplace]
    dsimp only [Bind.bind, Except.bind]
    rw [h.entry]
  rw [Tree.readText, Tree.readText, hread]

theorem leaves_put {entry : Entry} (hne : other ≠ place)
    (hplace : tree.entryAt? place ≠ some .directory) :
    Leaves other tree (tree.put place entry) :=
  ⟨entryAt?_put_other hne, keepsDirectories_put hplace⟩

theorem leaves_create (h : tree.create path = .ok tree') (hne : other ≠ Path.place path) :
    Leaves other tree tree' := by
  obtain ⟨place, executable, hplace, -, hentry, rfl⟩ := create_spec h
  rw [place_of_locate hplace] at hne
  exact leaves_put hne hentry

theorem leaves_append {bytes : ByteArray} (h : tree.append path bytes = .ok tree')
    (hne : other ≠ Path.place path) : Leaves other tree tree' := by
  unfold append at h
  obtain ⟨place, hplace, h⟩ := bind_eq_ok_iff.mp h
  rw [place_of_locate hplace] at hne
  split at h
  · next hfile =>
    obtain rfl := Except.ok.inj h
    exact leaves_put hne (by simp [hfile])
  · cases h
  · cases h

theorem leaves_rename (h : tree.rename path target = .ok tree') (hsource : other ≠ Path.place path)
    (htarget : other ≠ Path.place target) : Leaves other tree tree' := by
  cases moves_of_rename h with
  | stays => exact .refl other tree
  | goes hhere hthere hne hfile hfree _ =>
    rw [place_of_locate hhere] at hsource
    rw [place_of_locate hthere] at htarget
    have hremoved : Leaves other tree (tree.remove _) :=
      ⟨entryAt?_remove_other hsource, keepsDirectories_remove (by simp [hfile])⟩
    exact hremoved.trans (leaves_put htarget (by rwa [entryAt?_remove_other hne.symm]))

/-- A file that was moved to another place is gone from where it was. -/
theorem entryAt?_of_rename (h : tree.rename path target = .ok tree')
    (hne : Path.place path ≠ Path.place target) : tree'.entryAt? (Path.place path) = none := by
  cases moves_of_rename h with
  | stays hhere hthere _ =>
    rw [place_of_locate hhere, place_of_locate hthere] at hne
    exact absurd rfl hne
  | goes hhere _ hother hfile _ _ =>
    rw [place_of_locate hhere, entryAt?_put_other hother, entryAt?_remove_self (by simp [hfile])]

theorem spares_makeDirectory (h : tree.makeDirectory path = .ok tree') (other : Place) :
    Spares other tree tree' := by
  unfold makeDirectory at h
  obtain ⟨place, hplace, h⟩ := bind_eq_ok_iff.mp h
  split at h
  · cases h
  · next hnone =>
    have hfree : tree.entryAt? place ≠ some .directory := by simp [hnone]
    split at h
    · obtain rfl := Except.ok.inj h
      -- a directory is put where nothing was
      by_cases hother : other = place
      · subst hother
        refine ⟨?_, keepsDirectories_put hfree⟩
        rw [fileAt?, fileAt?, entryAt?_put_self hfree, hnone]
      · exact (leaves_put hother hfree).spares
    · cases h
    · cases h

theorem spares_makeDirectories (h : tree.makeDirectories path = .ok tree') (other : Place) :
    Spares other tree tree' :=
  rel_of_makeDirectories (Spares.refl other) Spares.trans
    (fun hmade => spares_makeDirectory hmade other) h

end Tree

/-! ### Operations of programs -/

/-- The operation may change the file at a place. -/
def FileOp.Writes (place : Place) : FileOp → Prop
  | .create path | .append path _ => Path.place path = place
  | .rename source target => Path.place source = place ∨ Path.place target = place
  | .readText _ | .makeDirectories _ | .acquire _ | .release _ | .now => False

/-- An operation that makes no new directory shows at the places that it writes, and nowhere
else. -/
theorem Disk.leaves_act {op : FileOp} {place : Place} {disk : Disk} (h : ¬ op.Writes place)
    (hmakes : ∀ path tree, op = .makeDirectories path → disk.tree.makeDirectories path = .ok tree →
      tree = disk.tree) : Tree.Leaves place disk.tree (Disk.act op disk).2.tree := by
  have hupdate {result : Except IoError Tree}
      (hok : ∀ tree, result = .ok tree → Tree.Leaves place disk.tree tree) :
      Tree.Leaves place disk.tree (disk.update result).2.tree := by
    cases result with
    | error e => exact .refl place disk.tree
    | ok tree => exact hok tree rfl
  cases op with
  | makeDirectories path =>
    refine hupdate fun tree hmade => ?_
    rw [hmakes path tree rfl hmade]
    exact .refl place disk.tree
  | create path => exact hupdate fun tree hmade => Tree.leaves_create hmade (Ne.symm h)
  | append path text => exact hupdate fun tree hmade => Tree.leaves_append hmade (Ne.symm h)
  | rename source target =>
    obtain ⟨hsource, htarget⟩ := not_or.mp h
    exact hupdate fun tree hmade => Tree.leaves_rename hmade (Ne.symm hsource) (Ne.symm htarget)
  | _ => exact .refl place disk.tree

/-- An operation shows in the files that it writes, and in no other. -/
theorem Disk.spares_act {op : FileOp} {place : Place} (h : ¬ op.Writes place) (disk : Disk) :
    Tree.Spares place disk.tree (Disk.act op disk).2.tree := by
  by_cases hmakes : ∃ path, op = .makeDirectories path
  · obtain ⟨path, rfl⟩ := hmakes
    cases hmade : disk.tree.makeDirectories path with
    | error e =>
      rw [Disk.act, hmade]
      exact .refl place disk.tree
    | ok tree =>
      rw [Disk.act, hmade]
      exact Tree.spares_makeDirectories hmade place
  · exact (Disk.leaves_act h fun path _ hop _ => absurd ⟨path, hop⟩ hmakes).spares

end Jobflow.Files
