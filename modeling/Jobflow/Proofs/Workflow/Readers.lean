import Jobflow.Proofs.Json.Printing
import Jobflow.Proofs.Workflow.Library
import Mathlib.Data.List.Induction
import Mathlib.Logic.Function.Basic

/-!
Calls on one library at the same time, while the files change. A call looks for its name in
memory, reads the file, and remembers what it understood unless another call was faster. All
calls for a name that succeed have the same definition, which one of them has read in the file;
a call that fails leaves the memory alone.
-/

namespace Jobflow.Workflow

open Jobflow.Files (Path Tree)

variable {ι α : Type}

/-- What remains of a call, or its answer. -/
abbrev Lookup (α : Type) := Program (consulting α) (Except FlowError α)

/-! ### Steps of a call -/

/-- The next step of a call, if it has one. -/
def Library.advance (library : Library α) : Lookup α → Lookup α × Library α
  | .done answer => (.done answer, library)
  | .step op next => (next (Library.act op library).1, (Library.act op library).2)

namespace Shelf

variable (shelf : Shelf α) (name : String) (library : Library α)

/-- What remains of a call that has understood its file. -/
def remembering (name : String) (definition : α) : Lookup α :=
  .step (.remember name definition) fun (kept : α) => .done (.ok kept)

/-- What remains of a call that has found nothing in memory. -/
def reading : Lookup α :=
  .step (.readText (shelf.pathFor name)) fun (read : Except Files.IoError String) =>
    match read with
    | .error e => .done (.error (shelf.unreadable name e))
    | .ok text =>
      match shelf.parse name text with
      | .error e => .done (.error e)
      | .ok definition => remembering name definition

theorem advance_get :
    (∃ definition, Dict.find? name library.remembered = some definition ∧
      library.advance (shelf.get name) = (.done (.ok definition), library)) ∨
    (∃ e, shelf.fresh name library.tree = .error e ∧
      library.advance (shelf.get name) = (.done (.error e), library)) ∨
    (isUnsafe name = false ∧ library.advance (shelf.get name) = (shelf.reading name, library)) := by
  simp only [get, Library.advance, Library.act]
  cases Dict.find? name library.remembered with
  | some definition => exact .inl ⟨definition, rfl, rfl⟩
  | none =>
    cases hname : isUnsafe name with
    | true => exact .inr (.inl ⟨_, fresh_of_isUnsafe hname, rfl⟩)
    | false => exact .inr (.inr ⟨rfl, rfl⟩)

variable {name} in
theorem advance_reading (hname : isUnsafe name = false) :
    (∃ e, shelf.fresh name library.tree = .error e ∧
      library.advance (shelf.reading name) = (.done (.error e), library)) ∨
    ∃ text definition, library.tree.readText (shelf.pathFor name) = .ok text ∧
      shelf.parse name text = .ok definition ∧
      library.advance (shelf.reading name) = (remembering name definition, library) := by
  simp only [reading, Library.advance, Library.act]
  cases hread : library.tree.readText (shelf.pathFor name) with
  | error e => exact .inl ⟨_, fresh_of_error hname hread, rfl⟩
  | ok text =>
    dsimp only
    cases hparse : shelf.parse name text with
    | error e => exact .inl ⟨e, (fresh_of_ok hname hread).trans hparse, rfl⟩
    | ok definition => exact .inr ⟨text, definition, rfl, hparse, rfl⟩

theorem advance_remembering (definition : α) :
    (Dict.find? name library.remembered = none ∧
      library.advance (remembering name definition) = (.done (.ok definition),
        { library with remembered := Dict.insert name definition library.remembered })) ∨
    ∃ kept, Dict.find? name library.remembered = some kept ∧
      library.advance (remembering name definition) = (.done (.ok kept), library) := by
  simp only [remembering, Library.advance, Library.act]
  cases Dict.find? name library.remembered with
  | none => exact .inl ⟨rfl, rfl⟩
  | some kept => exact .inr ⟨kept, rfl, rfl⟩

end Shelf

/-! ### Calls side by side -/

/-- Calls on one library: what remains of each, what is remembered, and the files. -/
structure Room (ι α : Type) where
  calls : ι → Lookup α
  library : Library α

/-- What happens next: a call does its next step, or the files become others. -/
inductive Turn (ι : Type) where
  | call (i : ι)
  | files (tree : Tree)

namespace Room

/-- What a call has answered, if it has come to its end. -/
def answer? (room : Room ι α) (i : ι) : Option (Except FlowError α) :=
  match room.calls i with
  | .done answer => some answer
  | .step .. => none

/-- The next step of the call reads a file. -/
def Reads (room : Room ι α) (i : ι) (path : Path) : Prop :=
  ∃ next, room.calls i = .step (.readText path) next

variable [DecidableEq ι]

def step (room : Room ι α) : Turn ι → Room ι α
  | .call i =>
    let (rest, library) := room.library.advance (room.calls i)
    ⟨Function.update room.calls i rest, library⟩
  | .files tree => { room with library := { room.library with tree := tree } }

def play (room : Room ι α) (turns : List (Turn ι)) : Room ι α := turns.foldl step room

variable {room : Room ι α} {i : ι} {answer : Except FlowError α}

omit [DecidableEq ι] in
theorem answer?_eq_some_iff : room.answer? i = some answer ↔ room.calls i = .done answer := by
  unfold answer?
  cases room.calls i <;> simp

theorem play_append (room : Room ι α) (first second : List (Turn ι)) :
    room.play (first ++ second) = (room.play first).play second := List.foldl_append

theorem play_concat (room : Room ι α) (turns : List (Turn ι)) (turn : Turn ι) :
    room.play (turns ++ [turn]) = (room.play turns).step turn := room.play_append turns [turn]

/-- An answer is final. -/
theorem answer?_play (h : room.answer? i = some answer) (turns : List (Turn ι)) :
    (room.play turns).answer? i = some answer := by
  induction turns using List.reverseRecOn with
  | nil => exact h
  | append_singleton turns turn ih =>
    rw [answer?_eq_some_iff] at ih ⊢
    rw [play_concat]
    cases turn with
    | files tree => exact ih
    | call j =>
      by_cases hij : i = j
      · subst hij
        simp [step, ih, Library.advance]
      · simpa [step, Function.update_of_ne hij] using ih

end Room

/-! ### Histories -/

/-- A new library, of which each call wants a name. -/
def Shelf.opened (shelf : Shelf α) (names : ι → String) (tree : Tree) : Room ι α :=
  ⟨fun i => shelf.get (names i), ⟨[], tree⟩⟩

variable [DecidableEq ι]

/-- At one of the steps of a call the room was as `Q` says. -/
def Took (start : Room ι α) (turns : List (Turn ι)) (i : ι) (Q : Room ι α → Prop) : Prop :=
  ∃ earlier later, turns = earlier ++ .call i :: later ∧ (start.play earlier).answer? i = none ∧
    Q (start.play earlier)

section
variable {shelf : Shelf α} {names : ι → String} {start : Room ι α} {turns : List (Turn ι)} {i : ι}
  {Q : Room ι α → Prop}

theorem Took.append (h : Took start turns i Q) (more : List (Turn ι)) :
    Took start (turns ++ more) i Q := by
  obtain ⟨earlier, later, rfl, hanswer, hroom⟩ := h
  exact ⟨earlier, later ++ more, by simp, hanswer, hroom⟩

theorem took_last (hanswer : (start.play turns).answer? i = none) (hroom : Q (start.play turns)) :
    Took start (turns ++ [.call i]) i Q := ⟨turns, [], rfl, hanswer, hroom⟩

/-- A call for the name has read the definition in the file. -/
def Shelf.HasRead (shelf : Shelf α) (names : ι → String) (start : Room ι α) (turns : List (Turn ι))
    (name : String) (definition : α) : Prop :=
  ∃ j text, names j = name ∧ shelf.parse name text = .ok definition ∧
    Took start turns j fun room => room.Reads j (shelf.pathFor name) ∧
      room.library.tree.readText (shelf.pathFor name) = .ok text

theorem Shelf.HasRead.append {name : String} {definition : α}
    (h : shelf.HasRead names start turns name definition) (more : List (Turn ι)) :
    shelf.HasRead names start (turns ++ more) name definition := by
  obtain ⟨j, text, hname, hparse, htook⟩ := h
  exact ⟨j, text, hname, hparse, htook.append more⟩

/-- The answer was remembered at one of the steps of the call, or is what the files said at one of
them. -/
def Shelf.Told (shelf : Shelf α) (names : ι → String) (start : Room ι α) (turns : List (Turn ι))
    (i : ι) (answer : Except FlowError α) : Prop :=
  (∃ definition, Took start turns i fun room =>
    Dict.find? (names i) room.library.remembered = some definition) ∨
  Took start turns i fun room => shelf.fresh (names i) room.library.tree = answer

theorem Shelf.Told.append {answer : Except FlowError α}
    (h : shelf.Told names start turns i answer) (more : List (Turn ι)) :
    shelf.Told names start (turns ++ more) i answer := by
  rcases h with ⟨definition, h⟩ | h
  · exact .inl ⟨definition, h.append more⟩
  · exact .inr (h.append more)

/-- How far a call has come, with what is remembered. -/
inductive Stands (shelf : Shelf α) (names : ι → String) (start : Room ι α) (turns : List (Turn ι))
    (i : ι) (remembered : Dict α) : Lookup α → Prop
  | looking : Stands shelf names start turns i remembered (shelf.get (names i))
  | reading (hname : Shelf.isUnsafe (names i) = false) :
      Stands shelf names start turns i remembered (shelf.reading (names i))
  | remembering {definition : α} (hread : shelf.HasRead names start turns (names i) definition)
      (htold : shelf.Told names start turns i (.ok definition)) :
      Stands shelf names start turns i remembered (Shelf.remembering (names i) definition)
  | succeeded {definition : α} (hkept : Dict.find? (names i) remembered = some definition)
      (htold : shelf.Told names start turns i (.ok definition)) :
      Stands shelf names start turns i remembered (.done (.ok definition))
  | failed {e : FlowError}
      (htold : Took start turns i fun room => shelf.fresh (names i) room.library.tree = .error e) :
      Stands shelf names start turns i remembered (.done (.error e))

theorem Stands.append {remembered remembered' : Dict α} {p : Lookup α}
    (h : Stands shelf names start turns i remembered p) (more : List (Turn ι))
    (hkept : ∀ definition, Dict.find? (names i) remembered = some definition →
      Dict.find? (names i) remembered' = some definition) :
    Stands shelf names start (turns ++ more) i remembered' p := by
  cases h with
  | looking => exact .looking
  | reading hname => exact .reading hname
  | remembering hread htold => exact .remembering (hread.append more) (htold.append more)
  | succeeded hfound htold => exact .succeeded (hkept _ hfound) (htold.append more)
  | failed htold => exact .failed (htold.append more)

/-- Everything that is remembered was read in a file, and every call stands somewhere. -/
structure Sound (shelf : Shelf α) (names : ι → String) (start : Room ι α) (turns : List (Turn ι)) :
    Prop where
  memory : ∀ name definition,
    Dict.find? name (start.play turns).library.remembered = some definition →
      shelf.HasRead names start turns name definition
  calls : ∀ i, Stands shelf names start turns i (start.play turns).library.remembered
    ((start.play turns).calls i)

/-- A turn that at most adds to the memory what was read, and after which each call stands
somewhere or is where it was. -/
theorem Sound.concat (h : Sound shelf names start turns) (turn : Turn ι)
    (hkept : ∀ name definition,
      Dict.find? name (start.play turns).library.remembered = some definition →
        Dict.find? name (start.play (turns ++ [turn])).library.remembered = some definition)
    (hmemory : ∀ name definition,
      Dict.find? name (start.play (turns ++ [turn])).library.remembered = some definition →
        Dict.find? name (start.play turns).library.remembered = some definition ∨
          shelf.HasRead names start turns name definition)
    (hcalls : ∀ i, (start.play (turns ++ [turn])).calls i = (start.play turns).calls i ∨
      Stands shelf names start (turns ++ [turn]) i
        (start.play (turns ++ [turn])).library.remembered
        ((start.play (turns ++ [turn])).calls i)) :
    Sound shelf names start (turns ++ [turn]) where
  memory name definition hfound := by
    rcases hmemory name definition hfound with hold | hread
    · exact (h.memory name definition hold).append _
    · exact hread.append _
  calls i := by
    rcases hcalls i with hsame | hstands
    · rw [hsame]
      exact (h.calls i).append _ (hkept (names i))
    · exact hstands

theorem Sound.files (h : Sound shelf names start turns) (tree : Tree) :
    Sound shelf names start (turns ++ [.files tree]) := by
  have hplay := start.play_concat turns (.files tree)
  refine h.concat _ (fun name definition hfound => ?_) (fun name definition hfound => .inl ?_)
    fun i => .inl ?_
  · rw [hplay]
    exact hfound
  · rw [hplay] at hfound
    exact hfound
  · rw [hplay]
    rfl

/-- A step of a call that at most adds to the memory what was read. -/
theorem Sound.moved (h : Sound shelf names start turns) {rest : Lookup α} {library : Library α}
    (hadvance : (start.play turns).library.advance ((start.play turns).calls i) = (rest, library))
    (hkept : ∀ name definition,
      Dict.find? name (start.play turns).library.remembered = some definition →
        Dict.find? name library.remembered = some definition)
    (hmemory : ∀ name definition, Dict.find? name library.remembered = some definition →
      Dict.find? name (start.play turns).library.remembered = some definition ∨
        shelf.HasRead names start turns name definition)
    (hrest : Stands shelf names start (turns ++ [.call i]) i library.remembered rest) :
    Sound shelf names start (turns ++ [.call i]) := by
  have hplay : start.play (turns ++ [.call i]) =
      ⟨Function.update (start.play turns).calls i rest, library⟩ := by
    rw [start.play_concat, Room.step, hadvance]
  refine h.concat _ (hplay ▸ hkept) (hplay ▸ hmemory) fun j => ?_
  rw [hplay]
  by_cases hj : j = i
  · subst hj
    exact .inr (by simpa using hrest)
  · exact .inl (Function.update_of_ne hj _ _)

/-- A step of a call that leaves the library as it is. -/
theorem Sound.looked (h : Sound shelf names start turns) {rest : Lookup α}
    (hadvance : (start.play turns).library.advance ((start.play turns).calls i) =
      (rest, (start.play turns).library))
    (hrest : Stands shelf names start (turns ++ [.call i]) i (start.play turns).library.remembered
      rest) :
    Sound shelf names start (turns ++ [.call i]) :=
  h.moved hadvance (fun _ _ => id) (fun _ _ => .inl) hrest

/-- The first call to remember a name; what is remembered under other names stays. -/
theorem Sound.remembered (h : Sound shelf names start turns) {rest : Lookup α} {definition : α}
    (hadvance : (start.play turns).library.advance ((start.play turns).calls i) =
      (rest, { (start.play turns).library with
        remembered := Dict.insert (names i) definition (start.play turns).library.remembered }))
    (hnew : Dict.find? (names i) (start.play turns).library.remembered = none)
    (hread : shelf.HasRead names start turns (names i) definition)
    (hrest : Stands shelf names start (turns ++ [.call i]) i
      (Dict.insert (names i) definition (start.play turns).library.remembered) rest) :
    Sound shelf names start (turns ++ [.call i]) := by
  refine h.moved hadvance (fun name other hother => ?_) (fun name other hother => ?_) hrest
  · have hne : name ≠ names i := by
      rintro rfl
      cases hnew.symm.trans hother
    exact (Dict.find?_insert_of_ne hne _ _).trans hother
  · by_cases hname : name = names i
    · subst hname
      obtain rfl := Option.some.inj ((Dict.find?_insert_self _ _ _).symm.trans hother)
      exact .inr hread
    · exact .inl ((Dict.find?_insert_of_ne hname _ _).symm.trans hother)

theorem Sound.call (h : Sound shelf names start turns) (i : ι) :
    Sound shelf names start (turns ++ [.call i]) := by
  have hstands := h.calls i
  generalize hp : (start.play turns).calls i = p at hstands
  have hwaits : ∀ {op : LibraryOp α} {next : op.Answer → Lookup α}, p = .step op next →
      (start.play turns).answer? i = none := by
    rintro op next rfl
    rw [Room.answer?, hp]
  cases hstands with
  | looking =>
    rcases shelf.advance_get (names i) (start.play turns).library with
      ⟨definition, hfound, hadvance⟩ | ⟨e, hfresh, hadvance⟩ | ⟨hname, hadvance⟩
    · exact h.looked (hp ▸ hadvance)
        (.succeeded hfound (.inl ⟨definition, took_last (hwaits rfl) hfound⟩))
    · exact h.looked (hp ▸ hadvance) (.failed (took_last (hwaits rfl) hfresh))
    · exact h.looked (hp ▸ hadvance) (.reading hname)
  | reading hname =>
    rcases shelf.advance_reading (start.play turns).library hname with
      ⟨e, hfresh, hadvance⟩ | ⟨text, definition, hread, hparse, hadvance⟩
    · exact h.looked (hp ▸ hadvance) (.failed (took_last (hwaits rfl) hfresh))
    · exact h.looked (hp ▸ hadvance)
        (.remembering ⟨i, text, rfl, hparse, took_last (hwaits rfl) ⟨⟨_, hp⟩, hread⟩⟩
          (.inr (took_last (hwaits rfl) ((Shelf.fresh_of_ok hname hread).trans hparse))))
  | @remembering definition hread htold =>
    rcases Shelf.advance_remembering (names i) (start.play turns).library definition with
      ⟨hnew, hadvance⟩ | ⟨kept, hfound, hadvance⟩
    · exact h.remembered (hp ▸ hadvance) hnew hread
        (.succeeded (Dict.find?_insert_self _ _ _) (htold.append _))
    · -- another call was faster, and its definition is the answer
      exact h.looked (hp ▸ hadvance)
        (.succeeded hfound (.inl ⟨kept, took_last (hwaits rfl) hfound⟩))
  | succeeded hkept htold =>
    have hadvance := congrArg (start.play turns).library.advance hp
    exact h.looked hadvance (.succeeded hkept (htold.append _))
  | failed htold =>
    have hadvance := congrArg (start.play turns).library.advance hp
    exact h.looked hadvance (.failed (htold.append _))

/-- A call that changes the memory succeeds with that step. -/
theorem Stands.advance {remembered : Dict α} {p : Lookup α}
    (h : Stands shelf names start turns i remembered p) (library : Library α) :
    (library.advance p).2.remembered = library.remembered ∨
      ∃ definition, (library.advance p).1 = .done (.ok definition) := by
  cases h with
  | looking => exact .inl rfl
  | reading => exact .inl rfl
  | @remembering definition =>
    rcases Shelf.advance_remembering (names i) library definition with
      ⟨-, hadvance⟩ | ⟨kept, -, hadvance⟩
    · exact .inr ⟨definition, congrArg Prod.fst hadvance⟩
    · exact .inl (congrArg (fun moved => moved.2.remembered) hadvance)
  | succeeded => exact .inl rfl
  | failed => exact .inl rfl

theorem Sound.kept (h : Sound shelf names start turns) {definition : α}
    (hanswer : (start.play turns).answer? i = some (.ok definition)) :
    Dict.find? (names i) (start.play turns).library.remembered = some definition := by
  have hstands := h.calls i
  rw [Room.answer?_eq_some_iff.mp hanswer] at hstands
  cases hstands with
  | succeeded hkept => exact hkept

theorem Sound.reported (h : Sound shelf names start turns) {e : FlowError}
    (hanswer : (start.play turns).answer? i = some (.error e)) :
    Took start turns i fun room => shelf.fresh (names i) room.library.tree = .error e := by
  have hstands := h.calls i
  rw [Room.answer?_eq_some_iff.mp hanswer] at hstands
  cases hstands with
  | failed htold => exact htold

theorem Sound.told (h : Sound shelf names start turns) {answer : Except FlowError α}
    (hanswer : (start.play turns).answer? i = some answer) :
    shelf.Told names start turns i answer := by
  cases answer with
  | error e => exact .inr (h.reported hanswer)
  | ok definition =>
    have hstands := h.calls i
    rw [Room.answer?_eq_some_iff.mp hanswer] at hstands
    cases hstands with
    | succeeded _ htold => exact htold

/-- No step of a call that fails in the end changes the memory. -/
theorem Sound.remembered_eq {earlier later : List (Turn ι)} {e : FlowError}
    (h : Sound shelf names start earlier)
    (hanswer : (start.play (earlier ++ .call i :: later)).answer? i = some (.error e)) :
    (start.play (earlier ++ [.call i])).library.remembered =
      (start.play earlier).library.remembered := by
  have hplay := start.play_concat earlier (.call i)
  rcases (h.calls i).advance (start.play earlier).library with hsame | ⟨definition, hdone⟩
  · rw [hplay]
    exact hsame
  · -- the call would have succeeded with this step
    have hlast : (start.play (earlier ++ [.call i])).answer? i = some (.ok definition) := by
      rw [Room.answer?_eq_some_iff, hplay]
      simp [Room.step, hdone]
    have hfinal := Room.answer?_play hlast later
    rw [← Room.play_append, List.append_assoc] at hfinal
    cases hanswer.symm.trans hfinal

theorem sound_opened (shelf : Shelf α) (names : ι → String) (tree : Tree) (turns : List (Turn ι)) :
    Sound shelf names (shelf.opened names tree) turns := by
  induction turns using List.reverseRecOn with
  | nil => exact ⟨nofun, fun _ => .looking⟩
  | append_singleton turns turn ih =>
    cases turn with
    | call i => exact ih.call i
    | files tree => exact ih.files tree

end

/-! ### What callers can rely on -/

/-- The calls have the same definition for the same name, while the files change: one that the file
meant when a call read it. A call that fails leaves the memory alone. As long as a name is not
remembered, the answer is what the files say, and they say what the text of the file means. -/
structure Consistent (shelf : Shelf α) (Means : String → α → Prop) (names : ι → String)
    (start : Room ι α) (turns : List (Turn ι)) : Prop where
  agree : ∀ i j definition definition', names i = names j →
    (start.play turns).answer? i = some (.ok definition) →
    (start.play turns).answer? j = some (.ok definition') → definition = definition'
  source : ∀ i definition, (start.play turns).answer? i = some (.ok definition) →
    ∃ j text, names j = names i ∧ Means text definition ∧
      Took start turns j fun room => room.Reads j (shelf.pathFor (names i)) ∧
        room.library.tree.readText (shelf.pathFor (names i)) = .ok text
  failing : ∀ i e, (start.play turns).answer? i = some (.error e) →
    (Took start turns i fun room => shelf.fresh (names i) room.library.tree = .error e) ∧
    ∀ earlier later, turns = earlier ++ .call i :: later →
      (start.play (earlier ++ [.call i])).library.remembered =
        (start.play earlier).library.remembered
  /-- a call that found its name in memory at none of its steps -/
  current : ∀ i answer, (start.play turns).answer? i = some answer →
    (¬ ∃ definition, Took start turns i fun room =>
      Dict.find? (names i) room.library.remembered = some definition) →
    Took start turns i fun room => shelf.fresh (names i) room.library.tree = answer
  /-- the next call, if it is made alone -/
  next : ∀ name, Dict.find? name (start.play turns).library.remembered = none →
    (shelf.consult name (start.play turns).library.remembered (start.play turns).library.tree).1 =
      shelf.fresh name (start.play turns).library.tree
  /-- a definition is said just where there is a file whose text means it -/
  said : ∀ name tree definition, shelf.fresh name tree = .ok definition ↔
    Shelf.isUnsafe name = false ∧
      ∃ text, tree.readText (shelf.pathFor name) = .ok text ∧ Means text definition

theorem consistent_opened {shelf : Shelf α} {Means : String → α → Prop}
    (hmeans : ∀ name text definition, shelf.parse name text = .ok definition ↔
      Means text definition)
    (names : ι → String) (tree : Tree) (turns : List (Turn ι)) :
    Consistent shelf Means names (shelf.opened names tree) turns where
  agree i j definition definition' hname hanswer hanswer' := by
    have hsound := sound_opened shelf names tree turns
    have hfound := hsound.kept hanswer
    rw [hname, hsound.kept hanswer'] at hfound
    exact (Option.some.inj hfound).symm
  source i definition hanswer := by
    have hsound := sound_opened shelf names tree turns
    obtain ⟨j, text, hname, hparse, htook⟩ := hsound.memory _ _ (hsound.kept hanswer)
    exact ⟨j, text, hname, (hmeans _ _ _).mp hparse, htook⟩
  failing i e hanswer := by
    refine ⟨(sound_opened shelf names tree turns).reported hanswer, ?_⟩
    rintro earlier later rfl
    exact (sound_opened shelf names tree earlier).remembered_eq hanswer
  current i answer hanswer hnew :=
    ((sound_opened shelf names tree turns).told hanswer).resolve_left hnew
  next name hnew := by rw [Shelf.consult_of_new hnew]
  said name tree definition := by
    simp only [Shelf.fresh_eq_ok_iff, hmeans]

/-- Notes as they stand in their files. -/
def notes : Shelf String := ⟨"note", "notes", fun _ text => .ok text⟩

def noted (text : String) : Tree :=
  [(["notes"], .directory), (["notes", "a.json"], .file text.toUTF8 false)]

/-- Two calls read different texts; the one that remembers later has the text of the other. -/
example :
    let room := (notes.opened (fun _ : Bool => "a") (noted "old")).play
      [.call true, .call true, .files (noted "new"), .call false, .call false, .call false,
        .call true]
    room.answer? true = some (.ok "new") ∧ room.answer? false = some (.ok "new") := by
  constructor <;> rfl

/-- A file is understood just when its text compiles, a blank one never. -/
theorem parseWorkflow_eq_ok_iff {name text : String} {command : Command} :
    parseWorkflow name text = .ok command ↔ compile text = .ok command := by
  unfold parseWorkflow
  split
  · next hblank =>
    obtain ⟨cause, hparse⟩ := Json.parse_of_isBlank hblank
    simp [compile, hparse]
  · cases compile text <;> simp

/-- Readers of workflows, and of forms, share their definitions: whatever calls are made on a new
library, and however their steps and the changes of the files come one after another. -/
theorem readers_share_definitions (directory : Path) (names : ι → String) (tree : Tree)
    (turns : List (Turn ι)) :
    Consistent (workflowShelf directory) (fun text command => compile text = .ok command) names
        ((workflowShelf directory).opened names tree) turns ∧
      Consistent (formShelf directory) (fun text form => parseForm text = .ok form) names
        ((formShelf directory).opened names tree) turns :=
  ⟨consistent_opened (fun _ _ _ => parseWorkflow_eq_ok_iff) names tree turns,
    consistent_opened (fun _ _ _ => Iff.rfl) names tree turns⟩

end Jobflow.Workflow
