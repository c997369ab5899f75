import Jobflow.Proofs.Files.Places
import Jobflow.Proofs.Files.Sharing

/-!
A file that is read and replaced while programs work on other files beside it. Whoever does so
relies on three things: the text of the file stays what it is, so does the temporary file that is
to take its place, and the way to the file stays open.
-/

namespace Jobflow.Files

/-- The text of a file, if it can be read. -/
def Tree.text? (tree : Tree) (path : Path) : Option String := (tree.readText path).toOption

/-- A file that is read and replaced: its path, that of the file that takes its place, and the
directory that is made for them. -/
structure Spot where
  directory : Path
  temporary : Path
  path : Path

namespace Spot

variable {spot : Spot} {tree tree' : Tree} {disk disk' first later : Disk} {text : String}

theorem text?_eq_some_iff {path : Path} :
    tree.text? path = some text ↔ tree.Holds path text.toUTF8 := by
  rw [← Tree.readText_eq_ok_iff, Tree.text?]
  cases tree.readText path <;> simp [Except.toOption]

theorem text?_of_spares {path : Path} (h : Tree.Spares (Path.place path) tree tree')
    (hopen : tree.Reaches path) : tree'.text? path = tree.text? path := by
  refine Option.ext fun text => ?_
  rw [text?_eq_some_iff, text?_eq_some_iff]
  refine ⟨fun hholds => hopen _ ?_, h.holds⟩
  exact h.file.symm.trans hholds.fileAt?

/-- What others leave alone. -/
structure Keeps (spot : Spot) (disk disk' : Disk) : Prop where
  text : disk'.tree.text? spot.path = disk.tree.text? spot.path
  temporary : ∀ content, disk.tree.Holds spot.temporary content →
    disk'.tree.Holds spot.temporary content
  way : disk.tree.Reaches spot.path → disk'.tree.Reaches spot.path

theorem Keeps.refl (spot : Spot) (disk : Disk) : spot.Keeps disk disk :=
  ⟨rfl, fun _ h => h, fun h => h⟩

theorem Keeps.trans {disk'' : Disk} (h : spot.Keeps disk disk') (h' : spot.Keeps disk' disk'') :
    spot.Keeps disk disk'' :=
  ⟨h'.text.trans h.text, fun content hold => h'.temporary content (h.temporary content hold),
    fun hopen => h'.way (h.way hopen)⟩

/-- An operation that writes neither file is not noticed. -/
theorem keeps_act {op : FileOp} (hpath : ¬ op.Writes (Path.place spot.path))
    (htemporary : ¬ op.Writes (Path.place spot.temporary)) (hopen : disk.tree.Reaches spot.path) :
    spot.Keeps disk (Disk.act op disk).2 := by
  have hspares := Disk.spares_act hpath disk
  exact ⟨text?_of_spares hspares hopen, fun content hold =>
    (Disk.spares_act htemporary disk).holds hold, hspares.reaches⟩

/-- The operations of those who read the file or replace it. -/
inductive Does (spot : Spot) : FileOp → Prop
  | now : Does spot .now
  | read : Does spot (.readText spot.path)
  | makeDirectories : Does spot (.makeDirectories spot.directory)
  | create : Does spot (.create spot.temporary)
  | append (text : String) : Does spot (.append spot.temporary text)
  | rename : Does spot (.rename spot.temporary spot.path)

theorem Does.not_locks {op : FileOp} (h : spot.Does op) : ¬ op.Locks := by
  cases h <;> exact id

theorem Does.directory_eq {path : Path} (h : spot.Does (.makeDirectories path)) :
    path = spot.directory := by
  cases h
  rfl

/-- Only the two files are written. -/
theorem Does.not_writes {op : FileOp} (h : spot.Does op) {place : Place}
    (hpath : Path.place spot.path ≠ place) (htemporary : Path.place spot.temporary ≠ place) :
    ¬ op.Writes place := by
  cases h with
  | rename => exact not_or.mpr ⟨htemporary, hpath⟩
  | create | append _ => exact htemporary
  | now | read | makeDirectories => exact id

/-- The way to the file stays open. -/
theorem Does.reaches {op : FileOp} (h : spot.Does op)
    (hne : Path.place spot.temporary ≠ Path.place spot.path) (hopen : disk.tree.Reaches spot.path) :
    (Disk.act op disk).2.tree.Reaches spot.path := by
  cases h with
  | rename =>
    generalize hact : Disk.act (.rename spot.temporary spot.path) disk = moved
    obtain ⟨_ | _, after⟩ := moved
    · obtain ⟨-, rfl⟩ := Disk.update_eq_error.mp hact
      exact hopen
    · obtain ⟨tree, hmoved, rfl⟩ := Disk.update_eq_ok.mp hact
      obtain ⟨content, hholds⟩ := Tree.exists_holds_of_rename hmoved
      exact (Tree.rename_spec hholds hmoved).reaches
  | create =>
    have hother : ¬ (FileOp.create spot.temporary).Writes (Path.place spot.path) := hne
    exact (Disk.spares_act hother disk).reaches hopen
  | append text =>
    have hother : ¬ (FileOp.append spot.temporary text).Writes (Path.place spot.path) := hne
    exact (Disk.spares_act hother disk).reaches hopen
  | makeDirectories =>
    have hnone : ¬ (FileOp.makeDirectories spot.directory).Writes (Path.place spot.path) := id
    exact (Disk.spares_act hnone disk).reaches hopen
  | now | read => exact hopen

/-! ### Preparing the new file -/

/-- Before the new file takes its place, the text is what it was. -/
structure Since (spot : Spot) (first later : Disk) : Prop where
  way : first.tree.Reaches spot.path → later.tree.Reaches spot.path
  text : first.tree.Reaches spot.path → later.tree.text? spot.path = first.tree.text? spot.path

theorem Since.of_keeps (h : spot.Keeps first later) : spot.Since first later :=
  ⟨h.way, fun _ => h.text⟩

theorem Since.keeps (h : spot.Since first disk) (h' : spot.Keeps disk later) :
    spot.Since first later :=
  ⟨fun hopen => h'.way (h.way hopen), fun hopen => h'.text.trans (h.text hopen)⟩

theorem Since.act {op : FileOp} (h : spot.Since first disk)
    (hop : ¬ op.Writes (Path.place spot.path)) :
    spot.Since first (Disk.act op disk).2 := by
  have hspares := Disk.spares_act hop disk
  exact ⟨fun hopen => hspares.reaches (h.way hopen),
    fun hopen => (text?_of_spares hspares (h.way hopen)).trans (h.text hopen)⟩

/-- How a replacement ends: with the new text in the file, or with the text that was there. -/
def Replaced (spot : Spot) (first : Disk) (text : String) : Except IoError Unit → Disk → Prop
  | .ok (), later => later.tree.Reaches spot.path ∧ later.tree.text? spot.path = some text
  | .error _, later => spot.Since first later

/-! ### Replacing the file -/

section
variable {sound : Disk → Prop} {guarantee : Disk → Disk → Prop} {α : Type}

/-- The disk stays sound, and others undisturbed, whatever is done for the file. -/
def Serves (spot : Spot) (sound : Disk → Prop) (guarantee : Disk → Disk → Prop) : Prop :=
  ∀ op disk, spot.Does op → sound disk → sound (Disk.act op disk).2 ∧
    guarantee disk (Disk.act op disk).2

theorem secure_step (hserves : spot.Serves sound guarantee) {Q : α → Disk → Prop} {op : FileOp}
    {next : op.Answer → Filing α} (hdoes : spot.Does op)
    (hnext : ∀ later, sound later → spot.Keeps disk later →
      Secure sound spot.Keeps guarantee Q (next (Disk.act op later).1) (Disk.act op later).2) :
    Secure sound spot.Keeps guarantee Q (.step op next) disk := by
  intro later hsound hkeeps
  obtain ⟨hstays, hguarantee⟩ := hserves op later hdoes hsound
  exact ⟨hdoes.not_locks, hstays, hguarantee, hnext later hsound hkeeps⟩

theorem secure_error (e : IoError) (h : spot.Since first disk) :
    Secure sound spot.Keeps guarantee (spot.Replaced first text) (pure (.error e)) disk :=
  secure_pure fun _ _ hkeeps => h.keeps hkeeps

/-- The last step of a replacement, from a temporary file that holds the text. -/
theorem secure_rename (hserves : spot.Serves sound guarantee) (hsince : spot.Since first disk)
    (hholds : disk.tree.Holds spot.temporary text.toUTF8) :
    Secure sound spot.Keeps guarantee (spot.Replaced first text)
      (Filing.rename spot.temporary spot.path) disk := by
  refine secure_step hserves .rename fun middle _ hkeeps => ?_
  have hholds := hkeeps.temporary _ hholds
  generalize hact : Disk.act (.rename spot.temporary spot.path) middle = moved
  obtain ⟨_ | _, after⟩ := moved
  · obtain ⟨-, rfl⟩ := Disk.update_eq_error.mp hact
    exact secure_error _ (hsince.keeps hkeeps)
  · obtain ⟨tree, hmoved, rfl⟩ := Disk.update_eq_ok.mp hact
    have hnew := Tree.rename_spec hholds hmoved
    exact secure_pure fun later _ hlater =>
      ⟨hlater.way hnew.reaches, hlater.text.trans (text?_eq_some_iff.mpr hnew)⟩

variable (hne : Path.place spot.temporary ≠ Path.place spot.path)
include hne

theorem secure_append (hserves : spot.Serves sound guarantee) (hsince : spot.Since first disk)
    (hholds : disk.tree.Holds spot.temporary ByteArray.empty) :
    Secure sound spot.Keeps guarantee (spot.Replaced first text)
      (Filing.andThen (Filing.append spot.temporary text) (Filing.rename spot.temporary spot.path))
      disk := by
  refine secure_step hserves (.append text) fun middle _ hkeeps => ?_
  have hnext : spot.Since first (Disk.act (.append spot.temporary text) middle).2 :=
    (hsince.keeps hkeeps).act hne
  obtain ⟨after, hrun, happended, -⟩ := Filing.append_step (hkeeps.temporary _ hholds) text
  have hact : Disk.act (.append spot.temporary text) middle = (.ok (), after) := hrun
  rw [ByteArray.empty_append] at happended
  rw [hact] at hnext ⊢
  exact secure_rename hserves hnext happended

theorem secure_create (hserves : spot.Serves sound guarantee) (hsince : spot.Since first disk) :
    Secure sound spot.Keeps guarantee (spot.Replaced first text)
      (Filing.rewrite spot.temporary spot.path text) disk := by
  refine secure_step hserves .create fun middle _ hkeeps => ?_
  have hnext : spot.Since first (Disk.act (.create spot.temporary) middle).2 :=
    (hsince.keeps hkeeps).act hne
  generalize hact : Disk.act (.create spot.temporary) middle = created at hnext ⊢
  obtain ⟨_ | _, after⟩ := created
  · exact secure_error _ hnext
  · exact secure_append hne hserves hnext (Filing.create_step hact).1

/-- A replacement leaves the new text in the file, or what was there. -/
theorem secure_replace (hserves : spot.Serves sound guarantee) (hsince : spot.Since first disk) :
    Secure sound spot.Keeps guarantee (spot.Replaced first text)
      (Filing.replace (some spot.directory) spot.temporary spot.path text) disk := by
  refine secure_step hserves .makeDirectories fun middle _ hkeeps => ?_
  have hnext : spot.Since first (Disk.act (.makeDirectories spot.directory) middle).2 :=
    (hsince.keeps hkeeps).act id
  generalize Disk.act (.makeDirectories spot.directory) middle = made at hnext ⊢
  obtain ⟨_ | _, after⟩ := made
  · exact secure_error _ hnext
  · exact secure_create hne hserves hnext

end

end Spot

end Jobflow.Files
