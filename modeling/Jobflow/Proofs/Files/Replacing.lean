import Jobflow.Files.Filing
import Jobflow.Proofs.Files.Tree
import Jobflow.Proofs.Program

/-!
Files that are replaced as a whole. A replacement that succeeds leaves the new text, one that
fails leaves the text that was there: nothing else can be read at any time.
-/

namespace Jobflow.Files

namespace Disk

variable {α β : Type}

/-! ### Runs -/

@[simp] theorem run_pure (a : α) (disk : Disk) : run (pure a) disk = (a, disk) := rfl

@[simp] theorem run_bind (p : Filing α) (f : α → Filing β) (disk : Disk) :
    run (p >>= f) disk = run (f (run p disk).1) (run p disk).2 :=
  Program.run_bind (I := filing) act p f disk

@[simp] theorem run_map (f : α → β) (p : Filing α) (disk : Disk) :
    run (f <$> p) disk = (f (run p disk).1, (run p disk).2) := by
  rw [map_eq_pure_bind, run_bind, run_pure]

@[simp] theorem run_holding (lock : String) (body : Filing α) (disk : Disk) :
    run (Filing.holding lock body) disk = run body disk := by
  unfold Filing.holding
  rw [run_bind, run_bind, run_bind]
  rfl

theorem run_andThen_eq_ok {first second : Filing (Except IoError Unit)} {disk after : Disk} :
    run (Filing.andThen first second) disk = (.ok (), after) ↔
      ∃ middle, run first disk = (.ok (), middle) ∧ run second middle = (.ok (), after) := by
  unfold Filing.andThen
  rw [run_bind]
  obtain ⟨result, middle⟩ := run first disk
  cases result <;> simp

theorem run_andThen_eq_error {first second : Filing (Except IoError Unit)} {disk after : Disk}
    {e : IoError} :
    run (Filing.andThen first second) disk = (.error e, after) ↔
      run first disk = (.error e, after) ∨
        ∃ middle, run first disk = (.ok (), middle) ∧ run second middle = (.error e, after) := by
  unfold Filing.andThen
  rw [run_bind]
  obtain ⟨result, middle⟩ := run first disk
  cases result <;> simp

theorem update_eq_ok {disk after : Disk} {result : Except IoError Tree} :
    disk.update result = (.ok (), after) ↔
      ∃ tree, result = .ok tree ∧ after = { disk with tree := tree } := by
  cases result <;> simp [update, eq_comm]

theorem update_eq_error {disk after : Disk} {result : Except IoError Tree} {e : IoError} :
    disk.update result = (.error e, after) ↔ result = .error e ∧ after = disk := by
  cases result <;> simp [update, eq_comm]

/-- No operation of a program moves the clock. -/
theorem now_act (op : FileOp) (disk : Disk) : (act op disk).2.now = disk.now := by
  have hupdate (result : Except IoError Tree) : (disk.update result).2.now = disk.now := by
    cases result <;> rfl
  cases op <;> first | rfl | exact hupdate _

theorem now_run (p : Filing α) (disk : Disk) : (run p disk).2.now = disk.now := by
  induction p generalizing disk with
  | done a => rfl
  | step op next ih => exact (ih _ _).trans (now_act op disk)

end Disk

namespace Filing

/-! ### Replacing -/

variable {disk after : Disk} {temporary path : Path} {text old : String}

/-- The steps of a replacement after the directory was made. -/
def rewrite (temporary path : Path) (text : String) : Filing (Except IoError Unit) :=
  andThen (create temporary) (andThen (append temporary text) (rename temporary path))

theorem replace_eq (directory : Option Path) (temporary path : Path) (text : String) :
    replace directory temporary path text =
      match directory with
      | some directory => andThen (makeDirectories directory) (rewrite temporary path text)
      | none => rewrite temporary path text := rfl

theorem create_step (h : Disk.run (create temporary) disk = (.ok (), after)) :
    after.tree.Holds temporary ByteArray.empty ∧
      ∀ path content, disk.tree.Holds path content →
        ∃ content', after.tree.Holds path content' := by
  obtain ⟨tree, hcreate, rfl⟩ := Disk.update_eq_ok.mp h
  obtain ⟨place, executable, hplace, hslash, hentry, rfl⟩ := Tree.create_spec hcreate
  exact ⟨Tree.holds_put_self hplace hslash hentry, fun path content hold => hold.put_file hentry⟩

/-- What is appended to a file is found at its end, and every file remains one. -/
theorem append_step {content : ByteArray} (h : disk.tree.Holds temporary content) (text : String) :
    ∃ after, Disk.run (append temporary text) disk = (.ok (), after) ∧
      after.tree.Holds temporary (content ++ text.toUTF8) ∧
      ∀ path content, disk.tree.Holds path content →
        ∃ content', after.tree.Holds path content' := by
  have hslash := h.not_endsInSlash
  obtain ⟨place, executable, hplace, hentry, happend⟩ := Tree.append_of_holds h text.toUTF8
  refine ⟨_, Disk.update_eq_ok.mpr ⟨_, happend, rfl⟩, Tree.holds_put_self hplace hslash hentry, ?_⟩
  exact fun path content hold => hold.put_file hentry

theorem readText_of_rewrite (h : Disk.run (rewrite temporary path text) disk = (.ok (), after)) :
    after.tree.readText path = .ok text := by
  obtain ⟨created, hcreate, h⟩ := Disk.run_andThen_eq_ok.mp h
  obtain ⟨appended, happend, hrename⟩ := Disk.run_andThen_eq_ok.mp h
  obtain ⟨middle, hmiddle, hholds, -⟩ := append_step (create_step hcreate).1 text
  obtain ⟨-, rfl⟩ := Prod.mk.inj (hmiddle.symm.trans happend)
  obtain ⟨tree, hmoved, rfl⟩ := Disk.update_eq_ok.mp hrename
  rw [ByteArray.empty_append] at hholds
  exact Tree.readText_eq_ok_iff.mpr (Tree.rename_spec hholds hmoved)

/-- Where a file can be read, only making the temporary file can fail. -/
theorem readText_of_failed_rewrite {e : IoError} (hold : disk.tree.readText path = .ok old)
    (h : Disk.run (rewrite temporary path text) disk = (.error e, after)) :
    after.tree.readText path = .ok old := by
  rcases Disk.run_andThen_eq_error.mp h with hcreate | ⟨created, hcreate, h⟩
  · obtain ⟨-, rfl⟩ := Disk.update_eq_error.mp hcreate
    exact hold
  · obtain ⟨hempty, hkeeps⟩ := create_step hcreate
    obtain ⟨appended, happend, hholds, hkept⟩ := append_step hempty text
    obtain ⟨content, hfile⟩ := hkeeps path old.toUTF8 (Tree.readText_eq_ok_iff.mp hold)
    obtain ⟨content', hfile'⟩ := hkept path content hfile
    obtain ⟨tree, hrename⟩ := Tree.rename_of_holds hholds hfile'
    have hmoved : Disk.run (rename temporary path) appended =
        (.ok (), { appended with tree := tree }) :=
      Disk.update_eq_ok.mpr ⟨tree, hrename, rfl⟩
    rcases Disk.run_andThen_eq_error.mp h with hfail | ⟨middle, hok, hfail⟩
    · rw [happend] at hfail
      cases hfail
    · obtain ⟨-, rfl⟩ := Prod.mk.inj (happend.symm.trans hok)
      rw [hmoved] at hfail
      cases hfail

variable {directory : Option Path}

/-- A replacement that succeeds leaves the new text. -/
theorem readText_of_replace
    (h : Disk.run (replace directory temporary path text) disk = (.ok (), after)) :
    after.tree.readText path = .ok text := by
  rw [replace_eq] at h
  cases directory with
  | none => exact readText_of_rewrite h
  | some directory =>
    obtain ⟨middle, -, h⟩ := Disk.run_andThen_eq_ok.mp h
    exact readText_of_rewrite h

/-- A replacement that fails leaves the text that was there. -/
theorem readText_of_failed_replace {e : IoError} (hold : disk.tree.readText path = .ok old)
    (h : Disk.run (replace directory temporary path text) disk = (.error e, after)) :
    after.tree.readText path = .ok old := by
  rw [replace_eq] at h
  cases directory with
  | none => exact readText_of_failed_rewrite hold h
  | some directory =>
    rcases Disk.run_andThen_eq_error.mp h with hmake | ⟨middle, hmake, h⟩
    · obtain ⟨-, rfl⟩ := Disk.update_eq_error.mp hmake
      exact hold
    · obtain ⟨tree, hmade, rfl⟩ := Disk.update_eq_ok.mp hmake
      have hkept := (Tree.readText_eq_ok_iff.mp hold).extends (Tree.extends_makeDirectories hmade)
      exact readText_of_failed_rewrite (Tree.readText_eq_ok_iff.mpr hkept) h

end Filing

/-! ### Writes that succeed -/

/-- Not the failure of a write. Reading may fail, for there may be nothing to read. -/
def FileOp.Succeeds : (op : FileOp) → op.Answer → Prop
  | .makeDirectories _, answer => answer = Except.ok ()
  | .create _, answer => answer = Except.ok ()
  | .append _ _, answer => answer = Except.ok ()
  | .rename _ _, answer => answer = Except.ok ()
  | .readText _, _ | .acquire _, _ | .release _, _ | .now, _ => True

namespace Disk

variable {α β : Type}

/-- Every write of the program succeeds when it runs on the disk. -/
def WritesSucceed : Filing α → Disk → Prop
  | .done _, _ => True
  | .step op next, disk =>
    op.Succeeds (act op disk).1 ∧ WritesSucceed (next (act op disk).1) (act op disk).2

theorem writesSucceed_bind_iff {p : Filing α} {f : α → Filing β} {disk : Disk} :
    WritesSucceed (p >>= f) disk ↔
      WritesSucceed p disk ∧ WritesSucceed (f (run p disk).1) (run p disk).2 := by
  induction p generalizing disk with
  | done a => exact ⟨fun h => ⟨trivial, h⟩, fun h => h.2⟩
  | step op next ih =>
    constructor
    · rintro ⟨hop, hrest⟩
      obtain ⟨hnext, hf⟩ := (ih (act op disk).1).mp hrest
      exact ⟨⟨hop, hnext⟩, hf⟩
    · rintro ⟨⟨hop, hnext⟩, hf⟩
      exact ⟨hop, (ih (act op disk).1).mpr ⟨hnext, hf⟩⟩

theorem writesSucceed_holding_iff {lock : String} {body : Filing α} {disk : Disk} :
    WritesSucceed (Filing.holding lock body) disk ↔ WritesSucceed body disk := by
  unfold Filing.holding
  rw [writesSucceed_bind_iff, writesSucceed_bind_iff]
  exact ⟨fun h => h.2.1, fun h => ⟨⟨trivial, trivial⟩, h, trivial, trivial⟩⟩

/-- The program succeeds as a whole when all its writes do. -/
def Dependable (p : Filing (Except IoError Unit)) : Prop :=
  ∀ disk, WritesSucceed p disk → (run p disk).1 = .ok ()

theorem Dependable.andThen {first second : Filing (Except IoError Unit)} (h : Dependable first)
    (h' : Dependable second) : Dependable (Filing.andThen first second) := by
  intro disk hwrites
  unfold Filing.andThen at hwrites ⊢
  obtain ⟨hfirst, hsecond⟩ := writesSucceed_bind_iff.mp hwrites
  rw [h disk hfirst] at hsecond
  rw [run_bind, h disk hfirst]
  exact h' _ hsecond

theorem dependable_replace (directory : Option Path) (temporary path : Path) (text : String) :
    Dependable (Filing.replace directory temporary path text) := by
  have hrewrite : Dependable (Filing.rewrite temporary path text) := by
    refine .andThen (fun disk h => h.1) (.andThen (fun disk h => h.1) (fun disk h => h.1))
  rw [Filing.replace_eq]
  cases directory with
  | none => exact hrewrite
  | some directory => exact .andThen (fun disk h => h.1) hrewrite

end Disk

end Jobflow.Files
