import Jobflow.Proofs.Cookie.Sites
import Jobflow.Proofs.Coupling
import Jobflow.Proofs.Workflow.Readers

/-!
Which files are looked at for a name. A definition is read, if at all, from one file of its
directory. The cookies of a site are kept in one file of theirs and written to another, and the
file of a site is never the one that is written for a site before it takes its place.
-/

namespace Jobflow

open Jobflow.Files
open Jobflow.Program (Asks Performs asks_pure)

/-! ### Definitions -/

namespace Workflow

variable {α : Type}

/-- The file that a step of a reader looks at. -/
def LibraryOp.path? : LibraryOp α → Option Path
  | .readText path => some path
  | .recall _ | .remember .. => none

/-- A step of a reader with its answer. -/
abbrev LibraryExchange (α : Type) := (op : LibraryOp α) × op.Answer

namespace Shelf

variable {shelf : Shelf α} {name : String} {steps : List (LibraryExchange α)}
  {answer : Except FlowError α}

theorem slashless_of_not_isUnsafe (h : isUnsafe name = false) : ∀ c ∈ name.toList, c ≠ '/' := by
  rintro c hc rfl
  have hslash : name.toList.any (fun c => c == '/' || c == '\\') = true :=
    List.any_eq_true.mpr ⟨_, hc, rfl⟩
  simp [isUnsafe, hslash] at h

/-- The file of a name that is not refused lies in the directory. -/
theorem isChild_pathFor (shelf : Shelf α) (h : isUnsafe name = false) :
    (shelf.pathFor name).IsChild shelf.directory (name ++ ".json") := by
  have hname : IsName (name.toList ++ ".json".toList) :=
    isName_of_suffix (slashless_of_not_isUnsafe h) (by simp) (by decide)
  have htext : String.ofList (name.toList ++ ".json".toList) = name ++ ".json" := by
    rw [String.ofList_append, String.ofList_toList, String.ofList_toList]
  rw [Shelf.pathFor, ← htext]
  exact Path.isChild_join hname

/-- What a call for a name comes to, by its steps and its answer: what is remembered, or a refusal
without a look at any file, or a look at one file, which lies in the directory under the name. -/
inductive Course (shelf : Shelf α) (name : String) (steps : List (LibraryExchange α))
    (answer : Except FlowError α) : Prop where
  | remembered (definition : α) (hsteps : steps = [⟨.recall name, some definition⟩])
      (hanswer : answer = .ok definition)
  | refused (hname : isUnsafe name = true) (hsteps : steps = [⟨.recall name, none⟩])
      (hanswer : answer = .error (.notFound (shelf.label name)))
  | read (hname : isUnsafe name = false) (hstart : steps.head? = some ⟨.recall name, none⟩)
      (hfiles : steps.filterMap (fun exchange => exchange.1.path?) = [shelf.pathFor name])
      (hchild : (shelf.pathFor name).IsChild shelf.directory (name ++ ".json"))

/-- After the file was read, no other is looked at. -/
theorem files_of_performs_reading (h : Performs (shelf.reading name) steps answer) :
    steps.filterMap (fun exchange => exchange.1.path?) = [shelf.pathFor name] := by
  obtain ⟨(read : Except IoError String), later, rfl, hread⟩ := Performs.of_step h
  suffices hlater : later.filterMap (fun exchange => LibraryOp.path? exchange.1) = [] from
    congrArg (shelf.pathFor name :: ·) hlater
  cases read with
  | error e =>
    obtain ⟨rfl, -⟩ := Performs.of_done hread
    rfl
  | ok text =>
    cases hparse : shelf.parse name text with
    | error e =>
      simp only [hparse] at hread
      obtain ⟨rfl, -⟩ := Performs.of_done hread
      rfl
    | ok definition =>
      simp only [hparse] at hread
      obtain ⟨_, _, rfl, hkept⟩ := Performs.of_step hread
      obtain ⟨rfl, -⟩ := Performs.of_done hkept
      rfl

theorem course_of_performs (h : Performs (shelf.get name) steps answer) :
    shelf.Course name steps answer := by
  obtain ⟨(recalled : Option α), later, rfl, hlater⟩ := Performs.of_step h
  cases recalled with
  | some definition =>
    obtain ⟨rfl, rfl⟩ := Performs.of_done hlater
    exact .remembered definition rfl rfl
  | none =>
    cases hname : isUnsafe name with
    | true =>
      simp only [hname, if_true] at hlater
      obtain ⟨rfl, rfl⟩ := Performs.of_done hlater
      exact .refused hname rfl rfl
    | false =>
      simp only [hname, Bool.false_eq_true, if_false] at hlater
      have hfiles : later.filterMap (fun exchange => LibraryOp.path? exchange.1) =
          [shelf.pathFor name] := files_of_performs_reading hlater
      exact .read hname rfl hfiles (shelf.isChild_pathFor hname)

end Shelf

end Workflow

/-! ### Cookies -/

/-- The paths that an operation names. -/
def Files.FileOp.paths : FileOp → List Path
  | .readText path | .makeDirectories path | .create path | .append path _ => [path]
  | .rename source target => [source, target]
  | .acquire _ | .release _ | .now => []

namespace Cookie.Store

variable {store : Store} {site other : String}

theorem isChild_pathFor (store : Store) (site : String) : (store.pathFor site).IsChild
    store.directory (String.ofList (fileName site ++ ".json".toList)) := by
  rw [pathFor_eq]
  exact Path.isChild_join (isName_file site)

theorem isChild_temporaryFor (store : Store) (site : String) :
    (store.temporaryFor site).IsChild store.directory (String.ofList (temporaryName site)) := by
  rw [temporaryFor_eq]
  exact Path.isChild_join (isName_temporary site)

/-- The operation names the directory and the two files of the site alone. -/
def Concerns (store : Store) (site : String) (op : FileOp) : Prop :=
  ∀ path ∈ op.paths, path = store.directory ∨ path = store.pathFor site ∨
    path = store.temporaryFor site

theorem asks_holding {α : Type} {body : Filing α} (h : Asks (store.Concerns site) body)
    (lock : String) : Asks (store.Concerns site) (Filing.holding lock body) := by
  have hacquire : Asks (store.Concerns site) (Filing.acquire lock) := ⟨nofun, asks_pure⟩
  have hrelease : Asks (store.Concerns site) (Filing.release lock) := ⟨nofun, asks_pure⟩
  exact hacquire.bind fun _ => h.bind fun a => hrelease.bind fun _ => asks_pure a

theorem asks_read (store : Store) (site : String) :
    Asks (store.Concerns site) (store.read site) := by
  have hread : Asks (store.Concerns site) (Filing.readText (store.pathFor site)) :=
    ⟨by simp [Concerns, FileOp.paths], asks_pure⟩
  refine hread.bind fun read => ?_
  split <;> exact asks_pure _

theorem asks_andThen {first second : Filing (Except IoError Unit)}
    (h : Asks (store.Concerns site) first) (h' : Asks (store.Concerns site) second) :
    Asks (store.Concerns site) (Filing.andThen first second) := by
  refine h.bind fun result => ?_
  cases result with
  | ok _ => exact h'
  | error e => exact asks_pure _

theorem asks_replace (store : Store) (site text : String) : Asks (store.Concerns site)
    (Filing.replace (some store.directory) (store.temporaryFor site)
      (store.pathFor site) text) := by
  have hdirectory : store.Concerns site (.makeDirectories store.directory) := by
    simp [Concerns, FileOp.paths]
  have hcreate : store.Concerns site (.create (store.temporaryFor site)) := by
    simp [Concerns, FileOp.paths]
  have happend : store.Concerns site (.append (store.temporaryFor site) text) := by
    simp [Concerns, FileOp.paths]
  have hrename : store.Concerns site (.rename (store.temporaryFor site) (store.pathFor site)) := by
    simp [Concerns, FileOp.paths]
  exact asks_andThen ⟨hdirectory, asks_pure⟩ (asks_andThen ⟨hcreate, asks_pure⟩
    (asks_andThen ⟨happend, asks_pure⟩ ⟨hrename, asks_pure⟩))

theorem asks_now (store : Store) (site : String) : Asks (store.Concerns site) Filing.now :=
  ⟨nofun, asks_pure⟩

theorem asks_load (store : Store) (site : String) :
    Asks (store.Concerns site) (store.load site) := by
  refine asks_holding ((asks_now store site).bind fun now => ?_) site
  exact (asks_read store site).bind fun _ => asks_pure _

theorem asks_save (store : Store) (site : String) (newer : Jar) :
    Asks (store.Concerns site) (store.save site newer) := by
  refine asks_holding ((asks_read store site).bind fun found => ?_) site
  cases found with
  | error e => exact asks_pure _
  | ok stored =>
    refine (asks_now store site).bind fun now => ?_
    exact (asks_replace store site _).bind fun _ => asks_pure _

/-- The calls for a site name two files, which lie in the directory, and its file is never the one
that is written first for a site: the paths have other components and lead elsewhere. -/
structure Confined (store : Store) (site : String) : Prop where
  file : (store.pathFor site).IsChild store.directory
    (String.ofList (fileName site ++ ".json".toList))
  temporary : (store.temporaryFor site).IsChild store.directory
    (String.ofList (temporaryName site))
  load : Asks (store.Concerns site) (store.load site)
  save : ∀ newer, Asks (store.Concerns site) (store.save site newer)
  apart : ∀ other, (store.pathFor site).components ≠ (store.temporaryFor other).components ∧
    Path.place (store.pathFor site) ≠ Path.place (store.temporaryFor other)

theorem confined (store : Store) (site : String) : store.Confined site where
  file := isChild_pathFor store site
  temporary := isChild_temporaryFor store site
  load := asks_load store site
  save := asks_save store site
  apart other := by
    refine ⟨fun h => ?_, fun h => temporaryPlace_ne_place h.symm⟩
    rw [(isChild_pathFor store site).components, (isChild_temporaryFor store other).components] at h
    exact temporaryName_ne_file other site (String.ofList_injective
      (List.cons.inj (List.append_cancel_left h)).1).symm

example : (Store.mk "Cookies").pathFor "" = "Cookies/.json" ∧
    (Store.mk "Cookies").temporaryFor "" = "Cookies/.json.json.tmp" := by
  decide

end Cookie.Store

/-- Files stay in their directories. A call for a workflow or a form, whatever its name, answers
what is remembered, or refuses the name without a look at the files, or looks at the one file in the
directory that has the name. The calls for a site name two files in the directory of the cookies,
and no site's file is one that is written for a site before it takes its place. -/
theorem files_stay_in_directory (directory : Path) (store : Cookie.Store) :
    (∀ name steps answer, Performs ((Workflow.workflowShelf directory).get name) steps answer →
      (Workflow.workflowShelf directory).Course name steps answer) ∧
    (∀ name steps answer, Performs ((Workflow.formShelf directory).get name) steps answer →
      (Workflow.formShelf directory).Course name steps answer) ∧
    ∀ site, store.Confined site :=
  ⟨fun _ _ _ => Workflow.Shelf.course_of_performs, fun _ _ _ => Workflow.Shelf.course_of_performs,
    store.confined⟩

end Jobflow
