import Jobflow.Proofs.Files.Extensions

/-!
Programs whose steps may fail, and that may be cut off. Any operation may fail for a reason that
the tree does not show, a write after a part of its text, and a program may not get to its next
step. A replacement leaves the file as it was until the temporary file is moved, which is its
last step.
-/

namespace Jobflow.Files

variable {α β : Type}

/-! ### Steps that may fail -/

/-- Some directories are made. -/
inductive Tree.MakesSome : Tree → Tree → Prop where
  | none (tree : Tree) : MakesSome tree tree
  | more {tree middle tree' : Tree} {path : Path} (h : MakesSome tree middle)
      (hmade : middle.makeDirectory path = .ok tree') : MakesSome tree tree'

/-- What an operation answers and leaves: what it does undisturbed, or a failure on the way. A
program that is cut off in a step finds no answer, but leaves what a failure leaves. -/
inductive Faulty : (op : FileOp) → Disk → op.Answer → Disk → Prop where
  | whole (op : FileOp) (disk : Disk) : Faulty op disk (Disk.act op disk).1 (Disk.act op disk).2
  /-- a file is reported missing only where it is -/
  | unread {path : Path} {disk : Disk} {e : IoError} (he : e ≠ .notFound) :
      Faulty (.readText path) disk (.error e) disk
  | unmade {path : Path} {disk : Disk} {tree : Tree} (e : IoError)
      (hmade : disk.tree.MakesSome tree) :
      Faulty (.makeDirectories path) disk (.error e) { disk with tree := tree }
  | uncreated {path : Path} {disk : Disk} (e : IoError) : Faulty (.create path) disk (.error e) disk
  /-- a part of the text is written -/
  | unwritten {path : Path} {text : String} {disk : Disk} {tree : Tree} {part rest : ByteArray}
      (e : IoError) (htext : text.toUTF8 = part ++ rest)
      (hpart : disk.tree.append path part = .ok tree) :
      Faulty (.append path text) disk (.error e) { disk with tree := tree }
  | unmoved {source target : Path} {disk : Disk} (e : IoError) :
      Faulty (.rename source target) disk (.error e) disk

/-- The step moves a file. -/
def FileOp.Moves : (op : FileOp) → op.Answer → Prop
  | .rename _ _, answer => answer = Except.ok ()
  | .readText _, _ | .makeDirectories _, _ | .create _, _ | .append _ _, _ | .acquire _, _
  | .release _, _ | .now, _ => False

/-- Steps with their answers, in order. -/
abbrev Steps := List ((op : FileOp) × op.Answer)

/-- From `disk` the program takes some steps, and what is left of it stands before `after`. -/
inductive Leads : Filing α → Disk → Steps → Filing α → Disk → Prop where
  | here (p : Filing α) (disk : Disk) : Leads p disk [] p disk
  | step {op : FileOp} {next : op.Answer → Filing α} {disk middle after : Disk} {answer : op.Answer}
      {steps : Steps} {rest : Filing α} (hstep : Faulty op disk answer middle)
      (hrest : Leads (next answer) middle steps rest after) :
      Leads (.step op next) disk (⟨op, answer⟩ :: steps) rest after

/-- A run that nobody disturbs is one way to the end. -/
theorem exists_leads_run (p : Filing α) (disk : Disk) :
    ∃ steps, Leads p disk steps (.done (Disk.run p disk).1) (Disk.run p disk).2 := by
  induction p generalizing disk with
  | done a => exact ⟨[], .here _ disk⟩
  | step op next ih =>
    obtain ⟨steps, hsteps⟩ := ih (Disk.act op disk).1 (Disk.act op disk).2
    exact ⟨_, .step (.whole op disk) hsteps⟩

/-! ### What is spared -/

/-- Whatever comes of the operation, the file at a place stays what it is, unless one is moved. -/
def FileOp.Harmless (place : Place) (op : FileOp) : Prop :=
  ∀ disk answer after, Faulty op disk answer after → ¬ op.Moves answer →
    Tree.Spares place disk.tree after.tree

section
variable {place : Place} {path temporary : Path} {tree tree' : Tree}

theorem Tree.MakesSome.spares (h : Tree.MakesSome tree tree') (place : Place) :
    Tree.Spares place tree tree' := by
  induction h with
  | none => exact .refl place _
  | more h hmade ih => exact ih.trans (Tree.spares_makeDirectory hmade place)

theorem harmless_of_not_writes {op : FileOp} (h : ¬ op.Writes place) : op.Harmless place := by
  intro disk answer after hstep _
  cases hstep with
  | whole => exact Disk.spares_act h disk
  | unread he => exact .refl place disk.tree
  | unmade e hmade => exact hmade.spares place
  | uncreated e => exact .refl place disk.tree
  | unwritten e htext hpart => exact (Tree.leaves_append hpart (Ne.symm h)).spares
  | unmoved e => exact .refl place disk.tree

theorem harmless_rename (source target : Path) : (FileOp.rename source target).Harmless place := by
  intro disk answer after hstep hmoves
  cases hstep with
  | whole =>
    rcases hact : Disk.act (.rename source target) disk with ⟨answer, after⟩
    rw [hact] at hmoves
    cases answer with
    | ok _ => exact absurd rfl hmoves
    | error e =>
      obtain ⟨-, rfl⟩ := Disk.update_eq_error.mp hact
      exact .refl place _
  | unmoved e => exact .refl place _

/-- What is written at the first path does not show at the place of the second: it lies elsewhere,
or is a directory. -/
def Path.Aside (temporary path : Path) : Prop :=
  Path.place temporary ≠ Path.place path ∨ temporary.fileName? = none

theorem Path.aside_withExtension (path : Path) : (path.withExtension "json.tmp").Aside path := by
  by_cases h : path.fileName? = none
  · exact .inr (by rw [Path.withExtension_of_none h, h])
  · exact .inl (Path.place_withExtension_ne path h)

theorem create_ne_ok (hname : path.fileName? = none) : tree.create path ≠ .ok tree' := by
  intro h
  obtain ⟨place, executable, hplace, -, hentry, -⟩ := Tree.create_spec h
  exact hentry (Tree.directory_of_fileName?_none hname hplace)

theorem append_ne_ok {bytes : ByteArray} (hname : path.fileName? = none) :
    tree.append path bytes ≠ .ok tree' := by
  intro h
  unfold Tree.append at h
  obtain ⟨place, hplace, h⟩ := bind_eq_ok_iff.mp h
  rw [Tree.directory_of_fileName?_none hname hplace] at h
  cases h

theorem not_holds_of_fileName?_none {content : ByteArray} (hname : path.fileName? = none) :
    ¬ tree.Holds path content := by
  rintro ⟨place, executable, hplace, hfile⟩
  rw [Tree.directory_of_fileName?_none hname hplace] at hfile
  cases hfile

/-- An operation that fails wherever it is tried leaves the tree as it is. -/
theorem Disk.spares_update {disk : Disk} {result : Except IoError Tree}
    (h : ∀ tree', result ≠ .ok tree') :
    Tree.Spares place disk.tree (disk.update result).2.tree := by
  cases result with
  | ok tree' => exact absurd rfl (h tree')
  | error e => exact .refl place disk.tree

theorem Path.Aside.harmless_create (h : temporary.Aside path) :
    (FileOp.create temporary).Harmless (Path.place path) := by
  rcases h with hplace | hname
  · exact harmless_of_not_writes hplace
  · intro disk answer after hstep _
    cases hstep with
    | whole => exact Disk.spares_update fun _ => create_ne_ok hname
    | uncreated e => exact .refl _ disk.tree

theorem Path.Aside.harmless_append (h : temporary.Aside path) (text : String) :
    (FileOp.append temporary text).Harmless (Path.place path) := by
  rcases h with hplace | hname
  · exact harmless_of_not_writes hplace
  · intro disk answer after hstep _
    cases hstep with
    | whole => exact Disk.spares_update fun _ => append_ne_ok hname
    | unwritten e htext hpart => exact absurd hpart (append_ne_ok hname)

/-! ### Programs that are cut off -/

/-- Every operation that the program may come to is harmless at a place. -/
def Careful (place : Place) : Filing α → Prop
  | .done _ => True
  | .step op next => op.Harmless place ∧ ∀ answer, Careful place (next answer)

theorem careful_pure (a : α) : Careful place (pure a : Filing α) := trivial

theorem Careful.bind {p : Filing α} {f : α → Filing β} (hp : Careful place p)
    (hf : ∀ a, Careful place (f a)) : Careful place (p >>= f) := by
  induction p with
  | done a => exact hf a
  | step op next ih => exact ⟨hp.1, fun answer => ih answer (hp.2 answer)⟩

theorem Careful.holding {body : Filing α} (h : Careful place body) (lock : String) :
    Careful place (Filing.holding lock body) := by
  have hacquire : Careful place (Filing.acquire lock) :=
    ⟨harmless_of_not_writes id, fun _ => trivial⟩
  have hrelease : Careful place (Filing.release lock) :=
    ⟨harmless_of_not_writes id, fun _ => trivial⟩
  exact hacquire.bind fun _ => h.bind fun a => hrelease.bind fun _ => careful_pure a

theorem Careful.andThen {first second : Filing (Except IoError Unit)} (h : Careful place first)
    (h' : Careful place second) : Careful place (Filing.andThen first second) := by
  refine h.bind fun result => ?_
  cases result with
  | ok _ => exact h'
  | error e => exact careful_pure _

theorem careful_readText (path : Path) : Careful place (Filing.readText path) :=
  ⟨harmless_of_not_writes id, fun _ => trivial⟩

theorem careful_now : Careful place Filing.now := ⟨harmless_of_not_writes id, fun _ => trivial⟩

theorem careful_replace (h : temporary.Aside path) (directory : Option Path) (text : String) :
    Careful (Path.place path) (Filing.replace directory temporary path text) := by
  have hcreate : Careful (Path.place path) (Filing.create temporary) :=
    ⟨h.harmless_create, fun _ => trivial⟩
  have happend : Careful (Path.place path) (Filing.append temporary text) :=
    ⟨h.harmless_append text, fun _ => trivial⟩
  have hrename : Careful (Path.place path) (Filing.rename temporary path) :=
    ⟨harmless_rename temporary path, fun _ => trivial⟩
  have hrewrite : Careful (Path.place path) (Filing.rewrite temporary path text) :=
    hcreate.andThen (happend.andThen hrename)
  rw [Filing.replace_eq]
  cases directory with
  | none => exact hrewrite
  | some directory =>
    have hmake : Careful (Path.place path) (Filing.makeDirectories directory) :=
      ⟨harmless_of_not_writes id, fun _ => trivial⟩
    exact hmake.andThen hrewrite

/-- Before it has moved a file, a careful program has left the file at the place as it was. -/
theorem Leads.spares {p rest : Filing α} {disk after : Disk} {steps : Steps}
    (h : Leads p disk steps rest after) (hcareful : Careful place p)
    (hnone : ∀ step ∈ steps, ¬ step.1.Moves step.2) : Tree.Spares place disk.tree after.tree := by
  induction h with
  | here p disk => exact .refl place disk.tree
  | step hstep _ ih =>
    obtain ⟨hharmless, hnext⟩ := hcareful
    obtain ⟨hthis, hlater⟩ := List.forall_mem_cons.mp hnone
    exact (hharmless _ _ _ hstep hthis).trans (ih (hnext _) hlater)

end

/-! ### Programs that come to their end -/

/-- However its steps go, the program ends as `Q` says, if it comes to its end. -/
def Meets (Q : α → Disk → Prop) : Filing α → Disk → Prop
  | .done a, disk => Q a disk
  | .step op next, disk => ∀ answer after, Faulty op disk answer after → Meets Q (next answer) after

section
variable {Q : α → Disk → Prop} {disk after : Disk}

theorem meets_pure {a : α} (h : Q a disk) : Meets Q (pure a) disk := h

theorem meets_bind {Q : β → Disk → Prop} {p : Filing α} {f : α → Filing β}
    (h : Meets (fun a after => Meets Q (f a) after) p disk) : Meets Q (p >>= f) disk := by
  induction p generalizing disk with
  | done a => exact h
  | step op next ih => exact fun answer after hstep => ih answer (h answer after hstep)

theorem Meets.mono {R : α → Disk → Prop} {p : Filing α} (h : Meets Q p disk)
    (himp : ∀ a after, Q a after → R a after) : Meets R p disk := by
  induction p generalizing disk with
  | done a => exact himp a disk h
  | step op next ih => exact fun answer after hstep => ih answer (h answer after hstep)

theorem Leads.meets {p : Filing α} {steps : Steps} {a : α} (h : Leads p disk steps (.done a) after)
    (hp : Meets Q p disk) : Q a after := by
  generalize hrest : (Program.done a : Filing α) = rest at h
  induction h with
  | here p disk =>
    subst hrest
    exact hp
  | step hstep _ ih => exact ih (hp _ _ hstep) hrest

theorem meets_holding {body : Filing α} {lock : String} (h : Meets Q body disk) :
    Meets Q (Filing.holding lock body) disk := by
  refine meets_bind (p := Filing.acquire lock) fun answer after hstep => ?_
  cases hstep
  refine meets_bind (h.mono fun a later hlater => ?_)
  refine meets_bind (p := Filing.release lock) fun answer after hstep => ?_
  cases hstep
  exact hlater

/-- The second program is run where the first has succeeded, and a failure is passed on. -/
theorem meets_andThen {Q : Except IoError Unit → Disk → Prop}
    {first second : Filing (Except IoError Unit)}
    (h : Meets (fun result after => (result = .ok () → Meets Q second after) ∧
      ∀ e, result = .error e → Q (.error e) after) first disk) :
    Meets Q (Filing.andThen first second) disk := by
  refine meets_bind (h.mono fun result after hresult => ?_)
  cases result with
  | ok _ => exact hresult.1 rfl
  | error e => exact meets_pure (hresult.2 e rfl)

theorem meets_readText {Q : Except IoError String → Disk → Prop} {path : Path}
    (hread : Q (disk.tree.readText path) disk) (herror : ∀ e, e ≠ .notFound → Q (.error e) disk) :
    Meets Q (Filing.readText path) disk := by
  intro answer after hstep
  cases hstep with
  | whole => exact hread
  | unread he => exact herror _ he

theorem meets_now {Q : Nat → Disk → Prop} (h : Q disk.now disk) : Meets Q Filing.now disk := by
  intro answer after hstep
  cases hstep
  exact h

/-! ### Replacements -/

/-- A write that succeeds does so as a whole. -/
theorem Faulty.act_eq {op : FileOp} {answer : op.Answer} (h : Faulty op disk answer after)
    (hread : ∀ path, op ≠ .readText path) (hok : op.Succeeds answer) :
    Disk.act op disk = (answer, after) := by
  cases h with
  | whole => rfl
  | unread he => exact absurd rfl (hread _)
  | unmade e hmade => cases hok
  | uncreated e => cases hok
  | unwritten e htext hpart => cases hok
  | unmoved e => cases hok

/-- How a replacement ends: with the new text in the file and the temporary file gone, or with the
file that was there. -/
def Replaces (first : Tree) (temporary path : Path) (text : String) :
    Except IoError Unit → Disk → Prop
  | .ok (), later =>
    later.tree.Holds path text.toUTF8 ∧ later.tree.entryAt? (Path.place temporary) = none
  | .error _, later => Tree.Spares (Path.place path) first later.tree

variable {first : Tree} {temporary path : Path} {text : String}

theorem meets_rename (haside : temporary.Aside path)
    (hspares : Tree.Spares (Path.place path) first disk.tree)
    (hholds : disk.tree.Holds temporary text.toUTF8) :
    Meets (Replaces first temporary path text) (Filing.rename temporary path) disk := by
  intro answer after hstep
  cases answer with
  | ok _ =>
    obtain ⟨tree, hmoved, rfl⟩ := Disk.update_eq_ok.mp (hstep.act_eq nofun rfl)
    -- the temporary file holds a text, so its path is not that of a directory
    have hplace := haside.resolve_right fun hname => not_holds_of_fileName?_none hname hholds
    exact ⟨Tree.rename_spec hholds hmoved, Tree.entryAt?_of_rename hmoved hplace⟩
  | error e => exact hspares.trans (harmless_rename temporary path disk _ after hstep nofun)

theorem meets_append (haside : temporary.Aside path)
    (hspares : Tree.Spares (Path.place path) first disk.tree)
    (hholds : disk.tree.Holds temporary ByteArray.empty) :
    Meets (Replaces first temporary path text)
      (Filing.andThen (Filing.append temporary text) (Filing.rename temporary path)) disk := by
  refine meets_andThen fun answer after hstep => ?_
  have hlater := hspares.trans (haside.harmless_append text disk answer after hstep id)
  refine ⟨?_, fun e _ => hlater⟩
  rintro rfl
  obtain ⟨appended, hrun, happended, -⟩ := Filing.append_step hholds text
  obtain ⟨-, rfl⟩ := Prod.mk.inj (hrun.symm.trans (hstep.act_eq nofun rfl))
  rw [ByteArray.empty_append] at happended
  exact meets_rename haside hlater happended

theorem meets_rewrite (haside : temporary.Aside path)
    (hspares : Tree.Spares (Path.place path) first disk.tree) :
    Meets (Replaces first temporary path text) (Filing.rewrite temporary path text) disk := by
  refine meets_andThen fun answer after hstep => ?_
  have hlater := hspares.trans (haside.harmless_create disk answer after hstep id)
  refine ⟨?_, fun e _ => hlater⟩
  rintro rfl
  exact meets_append haside hlater (Filing.create_step (hstep.act_eq nofun rfl)).1

/-- A replacement leaves the new text, or the file that was there. -/
theorem meets_replace (haside : temporary.Aside path) (directory : Option Path) :
    Meets (Replaces disk.tree temporary path text)
      (Filing.replace directory temporary path text) disk := by
  rw [Filing.replace_eq]
  cases directory with
  | none => exact meets_rewrite haside (.refl _ disk.tree)
  | some directory =>
    refine meets_andThen fun answer after hstep => ?_
    have hharmless : (FileOp.makeDirectories directory).Harmless (Path.place path) :=
      harmless_of_not_writes id
    have hmade := hharmless disk answer after hstep id
    exact ⟨fun _ => meets_rewrite haside hmade, fun e _ => hmade⟩

end

/-! ### Atomic replacements -/

/-- Whatever goes wrong, a program that is to replace the file at a path leaves it as it was when
it is cut off before it has moved a file, or fails; when it succeeds, the temporary file is gone
and the disk is as `Updated` says. -/
structure Atomic {ε : Type} (program : Filing (Except ε α)) (temporary path : Path) (disk : Disk)
    (Updated : Disk → Prop) : Prop where
  cut : ∀ {steps rest after}, Leads program disk steps rest after →
    (∀ step ∈ steps, ¬ step.1.Moves step.2) → Tree.Spares (Path.place path) disk.tree after.tree
  failed : ∀ {steps e after}, Leads program disk steps (.done (.error e)) after →
    Tree.Spares (Path.place path) disk.tree after.tree
  succeeded : ∀ {steps a after}, Leads program disk steps (.done (.ok a)) after →
    Updated after ∧ after.tree.entryAt? (Path.place temporary) = none

/-- How such a program ends. -/
structure Ends {ε : Type} (temporary path : Path) (disk : Disk) (Updated : Disk → Prop)
    (answer : Except ε α) (after : Disk) : Prop where
  failed : ∀ e, answer = .error e → Tree.Spares (Path.place path) disk.tree after.tree
  succeeded : ∀ a, answer = .ok a → Updated after ∧
    after.tree.entryAt? (Path.place temporary) = none

section
variable {ε : Type} {temporary path : Path} {disk : Disk} {Updated : Disk → Prop}

/-- A failure before anything was written. -/
theorem ends_error (e : ε) :
    Ends temporary path disk Updated (.error e : Except ε α) disk :=
  ⟨fun _ _ => .refl _ disk.tree, nofun⟩

theorem atomic_of_meets {program : Filing (Except ε α)}
    (hcareful : Careful (Path.place path) program)
    (hmeets : Meets (Ends temporary path disk Updated) program disk) :
    Atomic program temporary path disk Updated where
  cut h hnone := h.spares hcareful hnone
  failed h := (h.meets hmeets).failed _ rfl
  succeeded h := (h.meets hmeets).succeeded _ rfl

end

end Jobflow.Files
