import Jobflow.Proofs.Files.Interleaving

/-!
Programs that share a disk, each under a lock of its own kind, while the clock goes on between
their steps. What a program relies on while it has its lock is kept by the programs under all
other locks, so that for each lock the programs under it take their effects one after another.
-/

namespace Jobflow.Files

variable {ι α β : Type}

/-! ### Turns -/

/-- What happens next: a program does its next operation, or the clock shows another time. -/
inductive Turn (ι : Type) where
  | step (i : ι)
  | clock (now : Nat)
  deriving DecidableEq, Repr

/-- Every time that the clock shows in the turns satisfies `P`. -/
def Turn.Shows (P : Nat → Prop) : Turn ι → Prop
  | .step _ => True
  | .clock now => P now

namespace Joint

variable [DecidableEq ι]

def turn (joint : Joint ι α) : Turn ι → Joint ι α
  | .step i => joint.step i
  | .clock now => { joint with disk := { joint.disk with now := now } }

def playTurns (joint : Joint ι α) (turns : List (Turn ι)) : Joint ι α := turns.foldl turn joint

end Joint

/-! ### One program among others -/

section
variable {sound : Disk → Prop} {rely guarantee : Disk → Disk → Prop} {disk disk' : Disk}

/-- Whatever the others do within `rely` before each of its operations, on disks that are sound,
the program takes no lock, leaves the disk sound, keeps `guarantee` with each operation, and ends
in `Q`. -/
def Secure (sound : Disk → Prop) (rely guarantee : Disk → Disk → Prop) (Q : α → Disk → Prop) :
    Filing α → Disk → Prop
  | .done a, disk => ∀ disk', sound disk' → rely disk disk' → Q a disk'
  | .step op next, disk => ∀ disk', sound disk' → rely disk disk' → ¬ op.Locks ∧
      sound (Disk.act op disk').2 ∧ guarantee disk' (Disk.act op disk').2 ∧
      Secure sound rely guarantee Q (next (Disk.act op disk').1) (Disk.act op disk').2

theorem Secure.of_rely (htrans : ∀ d d' d'', rely d d' → rely d' d'' → rely d d'')
    {Q : α → Disk → Prop} {p : Filing α} (h : Secure sound rely guarantee Q p disk)
    (hrely : rely disk disk') : Secure sound rely guarantee Q p disk' := by
  cases p with
  | done a => exact fun later hsound hlater => h later hsound (htrans _ _ _ hrely hlater)
  | step op next => exact fun later hsound hlater => h later hsound (htrans _ _ _ hrely hlater)

theorem Secure.bind (hrefl : ∀ d, rely d d) {Q : α → Disk → Prop} {R : β → Disk → Prop}
    {p : Filing α} {f : α → Filing β} (hsound : sound disk)
    (h : Secure sound rely guarantee Q p disk)
    (hf : ∀ a later, sound later → Q a later → Secure sound rely guarantee R (f a) later) :
    Secure sound rely guarantee R (p >>= f) disk := by
  induction p generalizing disk with
  | done a => exact hf a disk hsound (h disk hsound (hrefl disk))
  | step op next ih =>
    intro later hlater hrely
    obtain ⟨hlocks, hstays, hkeeps, hrest⟩ := h later hlater hrely
    exact ⟨hlocks, hstays, hkeeps, ih _ hstays hrest⟩

/-- Run alone, the program ends in `Q`, and keeps `guarantee` from its start to its end. -/
theorem Secure.run (hrefl : ∀ d, rely d d) (hsame : ∀ d, guarantee d d)
    (htrans : ∀ d d' d'', guarantee d d' → guarantee d' d'' → guarantee d d'')
    {Q : α → Disk → Prop} {p : Filing α} (hsound : sound disk)
    (h : Secure sound rely guarantee Q p disk) :
    Q (Disk.run p disk).1 (Disk.run p disk).2 ∧ guarantee disk (Disk.run p disk).2 := by
  induction p generalizing disk with
  | done a => exact ⟨h disk hsound (hrefl disk), hsame disk⟩
  | step op next ih =>
    obtain ⟨-, hstays, hkeeps, hrest⟩ := h disk hsound (hrefl disk)
    obtain ⟨hend, hlater⟩ := ih _ hstays hrest
    exact ⟨hend, htrans _ _ _ hkeeps hlater⟩

theorem secure_pure {Q : α → Disk → Prop} {a : α}
    (h : ∀ later, sound later → rely disk later → Q a later) :
    Secure sound rely guarantee Q (pure a) disk := h

end

/-! ### Effects one after another -/

section
variable {rely : Disk → Disk → Prop} {effect : ι → α → Disk → Disk → Prop}

/-- Effects one after another, with changes within `rely` before, between and after them. -/
inductive Succession (rely : Disk → Disk → Prop) (effect : ι → α → Disk → Disk → Prop) :
    Disk → List (ι × α) → Disk → Prop
  | rest {first last : Disk} : rely first last → Succession rely effect first [] last
  | next {first before after last : Disk} {i : ι} {a : α} {later : List (ι × α)} :
      rely first before → effect i a before after → Succession rely effect after later last →
      Succession rely effect first ((i, a) :: later) last

variable {first middle last : Disk} {visits : List (ι × α)}

theorem Succession.of_rely (htrans : ∀ d d' d'', rely d d' → rely d' d'' → rely d d'')
    (h : Succession rely effect first visits middle) (hrely : rely middle last) :
    Succession rely effect first visits last := by
  induction h with
  | rest hfirst => exact .rest (htrans _ _ _ hfirst hrely)
  | next hfirst heffect _ ih => exact .next hfirst heffect (ih hrely)

theorem Succession.concat (hrefl : ∀ d, rely d d) {i : ι} {a : α}
    (h : Succession rely effect first visits middle) (heffect : effect i a middle last) :
    Succession rely effect first (visits ++ [(i, a)]) last := by
  induction h with
  | rest hfirst => exact .next hfirst heffect (.rest (hrefl _))
  | next hfirst hdone _ ih => exact .next hfirst hdone (ih heffect)

end

/-! ### Sharing -/

/-- Programs that each do all their work under one of some locks: what holds of the disk at all
times, what a program relies on while it has its lock, which the programs under other locks keep,
and the effect it has in the end. -/
structure Sharing (ι α : Type) where
  locks : Set String
  lock : ι → String
  mem : ∀ i, lock i ∈ locks
  body : ι → Filing α
  sound : Disk → Prop
  rely : String → Disk → Disk → Prop
  effect : ι → α → Disk → Disk → Prop
  /-- the times that the clock may show -/
  times : Nat → Prop
  refl : ∀ lock disk, rely lock disk disk
  trans : ∀ lock disk disk' disk'', rely lock disk disk' → rely lock disk' disk'' →
    rely lock disk disk''
  clock : ∀ disk now, times now → sound disk → sound { disk with now := now } ∧
    ∀ lock, rely lock disk { disk with now := now }
  secure : ∀ i disk, sound disk →
    Secure sound (rely (lock i)) (fun before after => ∀ l ∈ locks, l ≠ lock i → rely l before after)
      (fun a after => effect i a disk after) (body i) disk

namespace Sharing

variable (sharing : Sharing ι α)

/-- The programs as they begin, with every lock free. -/
def start (disk : Disk) : Joint ι α where
  threads i := Filing.holding (sharing.lock i) (sharing.body i)
  holder _ := none
  disk := disk

/-- What remains of a program that had its lock on the disk `before` has its effect in the end,
and leaves the others what they rely on. -/
def Goes (i : ι) (before : Disk) : Filing α → Disk → Prop :=
  Secure sharing.sound (sharing.rely (sharing.lock i))
    (fun d d' => ∀ l ∈ sharing.locks, l ≠ sharing.lock i → sharing.rely l d d')
    (fun a after => sharing.effect i a before after)

/-- The joint state of the programs: under each lock those that came to their end took their
effects one after another, and at most one of the others has begun. -/
structure Tidy (disk : Disk) (log : String → List (ι × α)) (joint : Joint ι α) : Prop where
  sound : sharing.sound joint.disk
  own : ∀ l, ∀ visit ∈ log l, sharing.lock visit.1 = l
  distinct : ∀ l, ((log l).map Prod.fst).Nodup
  returned : ∀ l, ∀ visit ∈ log l, joint.threads visit.1 = .done visit.2
  waiting : ∀ i, i ∉ (log (sharing.lock i)).map Prod.fst → joint.holder (sharing.lock i) ≠ some i →
    joint.threads i = Filing.holding (sharing.lock i) (sharing.body i)
  idle : ∀ l ∈ sharing.locks, joint.holder l = none →
    Succession (sharing.rely l) sharing.effect disk (log l) joint.disk
  working : ∀ l i, joint.holder l = some i → sharing.lock i = l ∧ i ∉ (log l).map Prod.fst ∧
    ∃ before rest, Succession (sharing.rely l) sharing.effect disk (log l) before ∧
      joint.threads i = leaving l rest ∧ sharing.Goes i before rest joint.disk

/-- The logs once a program has come to its end, after those that did before it under its lock. -/
def logged (log : String → List (ι × α)) (i : ι) (a : α) : String → List (ι × α) :=
  Function.update log (sharing.lock i) (log (sharing.lock i) ++ [(i, a)])

theorem logged_self {log : String → List (ι × α)} {i : ι} {a : α} :
    sharing.logged log i a (sharing.lock i) = log (sharing.lock i) ++ [(i, a)] :=
  Function.update_self _ _ _

theorem logged_of_ne {log : String → List (ι × α)} {i : ι} {a : α} {l : String}
    (h : l ≠ sharing.lock i) : sharing.logged log i a l = log l :=
  Function.update_of_ne h _ _

theorem subset_logged (log : String → List (ι × α)) (i : ι) (a : α) {l : String} :
    (log l).map Prod.fst ⊆ (sharing.logged log i a l).map Prod.fst := by
  by_cases hl : l = sharing.lock i
  · subst hl
    rw [logged_self, List.map_append]
    exact List.subset_append_left _ _
  · rw [sharing.logged_of_ne hl]
    exact List.Subset.refl _

variable {sharing}

theorem secure_of_rely {lock : String} {guarantee : Disk → Disk → Prop} {Q : α → Disk → Prop}
    {p : Filing α} {disk disk' : Disk}
    (h : Secure sharing.sound (sharing.rely lock) guarantee Q p disk)
    (hrely : sharing.rely lock disk disk') :
    Secure sharing.sound (sharing.rely lock) guarantee Q p disk' :=
  h.of_rely (sharing.trans lock) hrely

theorem succession_of_rely {lock : String} {first middle last : Disk} {visits : List (ι × α)}
    (h : Succession (sharing.rely lock) sharing.effect first visits middle)
    (hrely : sharing.rely lock middle last) :
    Succession (sharing.rely lock) sharing.effect first visits last :=
  h.of_rely (sharing.trans lock) hrely

theorem tidy_start {disk : Disk} (hsound : sharing.sound disk) :
    sharing.Tidy disk (fun _ => []) (sharing.start disk) where
  sound := hsound
  own := nofun
  distinct _ := .nil
  returned := nofun
  waiting _ _ _ := rfl
  idle _ _ _ := .rest (sharing.refl _ _)
  working := nofun

namespace Tidy

variable {disk : Disk} {log : String → List (ι × α)} {joint : Joint ι α} {i : ι}

/-- A program that has an operation left is not among those that came to their end. -/
theorem not_mem_of_step (h : sharing.Tidy disk log joint) {op : FileOp}
    {next : op.Answer → Filing α} (hi : joint.threads i = .step op next) (l : String) :
    i ∉ (log l).map Prod.fst := by
  intro hmem
  obtain ⟨visit, hvisit, rfl⟩ := List.mem_map.mp hmem
  rw [h.returned l visit hvisit] at hi
  cases hi

/-- A program that has its lock is not at its end. -/
theorem step_of_holder (h : sharing.Tidy disk log joint) {l : String}
    (hi : joint.holder l = some i) :
    joint.isDone i = false := by
  obtain ⟨-, -, before, rest, -, hrest, -⟩ := h.working l i hi
  exact isDone_of_leaving hrest

/-- Whoever came to its end has had its effect. -/
theorem mem_of_done (h : sharing.Tidy disk log joint) {a : α} (hi : joint.threads i = .done a) :
    (i, a) ∈ log (sharing.lock i) := by
  have hdone : joint.isDone i = true := Joint.isDone_eq_true_iff.mpr ⟨a, hi⟩
  have hmem : i ∈ (log (sharing.lock i)).map Prod.fst := by
    by_contra hfresh
    by_cases hholder : joint.holder (sharing.lock i) = some i
    · rw [h.step_of_holder hholder] at hdone
      cases hdone
    · have hwaiting := h.waiting i hfresh hholder
      rw [hi] at hwaiting
      cases hwaiting
  obtain ⟨visit, hvisit, rfl⟩ := List.mem_map.mp hmem
  have hreturned := h.returned _ visit hvisit
  rw [hi] at hreturned
  obtain rfl := Program.done.inj hreturned
  exact hvisit

/-- Where everyone under a lock has come to an end, nobody has it. -/
theorem free_of_done (h : sharing.Tidy disk log joint) {l : String}
    (hdone : ∀ i, sharing.lock i = l → joint.isDone i = true) : joint.holder l = none := by
  cases hholder : joint.holder l with
  | none => rfl
  | some i =>
    have hnot := h.step_of_holder hholder
    rw [hdone i (h.working l i hholder).1] at hnot
    cases hnot

/-- What was done under a lock, up to a disk from which the program that has the lock started, or
up to now. -/
theorem exists_succession (h : sharing.Tidy disk log joint) {l : String} (hl : l ∈ sharing.locks) :
    ∃ middle, Succession (sharing.rely l) sharing.effect disk (log l) middle ∧
      (joint.holder l = none → middle = joint.disk) := by
  cases hholder : joint.holder l with
  | none => exact ⟨joint.disk, h.idle l hl hholder, fun _ => rfl⟩
  | some j =>
    obtain ⟨-, -, before, rest, hbefore, -⟩ := h.working _ j hholder
    exact ⟨before, hbefore, nofun⟩

theorem clock (h : sharing.Tidy disk log joint) {now : Nat} (hnow : sharing.times now) :
    sharing.Tidy disk log { joint with disk := { joint.disk with now := now } } where
  sound := (sharing.clock _ _ hnow h.sound).1
  own := h.own
  distinct := h.distinct
  returned := h.returned
  waiting := h.waiting
  idle l hl hfree := succession_of_rely (h.idle l hl hfree) ((sharing.clock _ _ hnow h.sound).2 l)
  working l j hholder := by
    obtain ⟨rfl, hfresh, before, rest, hbefore, hrest, hsecure⟩ := h.working l j hholder
    exact ⟨rfl, hfresh, before, rest, hbefore, hrest,
      secure_of_rely hsecure ((sharing.clock _ _ hnow h.sound).2 _)⟩

theorem own_logged (h : sharing.Tidy disk log joint) (a : α) :
    ∀ l, ∀ visit ∈ sharing.logged log i a l, sharing.lock visit.1 = l := by
  refine (Function.forall_update_iff log fun l visits =>
    ∀ visit ∈ visits, sharing.lock visit.1 = l).mpr ⟨?_, fun l _ => h.own l⟩
  exact List.forall_mem_append.mpr ⟨h.own _, List.forall_mem_singleton.mpr rfl⟩

theorem distinct_logged (h : sharing.Tidy disk log joint)
    (hi : i ∉ (log (sharing.lock i)).map Prod.fst) (a : α) :
    ∀ l, ((sharing.logged log i a l).map Prod.fst).Nodup := by
  refine (Function.forall_update_iff log fun _ visits => (visits.map Prod.fst).Nodup).mpr
    ⟨?_, fun l _ => h.distinct l⟩
  rw [List.map_append]
  exact (h.distinct _).append (List.nodup_singleton i) (List.disjoint_singleton.mpr hi)

variable [DecidableEq ι]

/-- Whoever came to its end has come to it, whatever another program does meanwhile. -/
theorem returned_update (h : sharing.Tidy disk log joint)
    (hi : i ∉ (log (sharing.lock i)).map Prod.fst) (p : Filing α) (l : String) :
    ∀ visit ∈ log l, Function.update joint.threads i p visit.1 = .done visit.2 := by
  intro visit hvisit
  have hne : visit.1 ≠ i := by
    rintro rfl
    rw [h.own l visit hvisit] at hi
    exact hi (List.mem_map_of_mem hvisit)
  exact (Function.update_of_ne hne _ _).trans (h.returned l visit hvisit)

/-- A program at work under another lock goes on from where it was. -/
theorem working_elsewhere (h : sharing.Tidy disk log joint) {l : String} {j : ι}
    (hlock : l ≠ sharing.lock i) (hj : joint.holder l = some j) (p : Filing α) :
    sharing.lock j = l ∧ j ∉ (log l).map Prod.fst ∧
      ∃ before rest, Succession (sharing.rely l) sharing.effect disk (log l) before ∧
        Function.update joint.threads i p j = leaving l rest ∧
        sharing.Goes j before rest joint.disk := by
  obtain ⟨hown, hfresh, before, rest, hbefore, hrest, hsecure⟩ := h.working l j hj
  have hne : j ≠ i := by
    rintro rfl
    exact hlock hown.symm
  exact ⟨hown, hfresh, before, rest, hbefore, (Function.update_of_ne hne _ _).trans hrest, hsecure⟩

/-- A program takes its free lock. -/
theorem enter (h : sharing.Tidy disk log joint) (hi : i ∉ (log (sharing.lock i)).map Prod.fst)
    (hfree : joint.holder (sharing.lock i) = none) :
    sharing.Tidy disk log
      { threads := Function.update joint.threads i (leaving (sharing.lock i) (sharing.body i))
        holder := Function.update joint.holder (sharing.lock i) (some i)
        disk := joint.disk } := by
  refine ⟨h.sound, h.own, h.distinct, h.returned_update hi _, ?_, ?_, ?_⟩
  · intro j hj hnot
    have hne : j ≠ i := by
      rintro rfl
      exact hnot (Function.update_self _ _ _)
    refine (Function.update_of_ne hne _ _).trans (h.waiting j hj ?_)
    dsimp only at hnot
    by_cases hlock : sharing.lock j = sharing.lock i
    · rw [hlock, hfree]
      nofun
    · rwa [Function.update_of_ne hlock] at hnot
  · intro l hl hj
    dsimp only at hj
    by_cases hlock : l = sharing.lock i
    · rw [hlock, Function.update_self] at hj
      cases hj
    · rw [Function.update_of_ne hlock] at hj
      exact h.idle l hl hj
  · intro l j hj
    dsimp only at hj
    by_cases hlock : l = sharing.lock i
    · subst hlock
      rw [Function.update_self] at hj
      obtain rfl := Option.some.inj hj
      exact ⟨rfl, hi, joint.disk, sharing.body i, h.idle _ (sharing.mem i) hfree,
        Function.update_self _ _ _, sharing.secure i joint.disk h.sound⟩
    · rw [Function.update_of_ne hlock] at hj
      exact h.working_elsewhere hlock hj _

/-- The program that has its lock does the next operation of its work. -/
theorem work (h : sharing.Tidy disk log joint) {op : FileOp} {next : op.Answer → Filing α}
    {before : Disk} (hholder : joint.holder (sharing.lock i) = some i)
    (hbefore : Succession (sharing.rely (sharing.lock i)) sharing.effect disk (log (sharing.lock i))
      before)
    (hsecure : sharing.Goes i before (.step op next) joint.disk) :
    sharing.Tidy disk log
      { threads := Function.update joint.threads i
          (leaving (sharing.lock i) (next (Disk.act op joint.disk).1))
        holder := joint.holder
        disk := (Disk.act op joint.disk).2 } := by
  obtain ⟨-, hfresh, -⟩ := h.working _ i hholder
  obtain ⟨-, hsound, hkeeps, hnext⟩ := hsecure joint.disk h.sound (sharing.refl _ _)
  refine ⟨hsound, h.own, h.distinct, h.returned_update hfresh _, ?_, ?_, ?_⟩
  · intro j hj hnot
    have hne : j ≠ i := by
      rintro rfl
      exact hnot hholder
    exact (Function.update_of_ne hne _ _).trans (h.waiting j hj hnot)
  · intro l hl hj
    have hlock : l ≠ sharing.lock i := by
      rintro rfl
      rw [hholder] at hj
      cases hj
    exact succession_of_rely (h.idle l hl hj) (hkeeps l hl hlock)
  · intro l j hj
    by_cases hlock : l = sharing.lock i
    · subst hlock
      obtain rfl := Option.some.inj (hholder.symm.trans hj)
      exact ⟨rfl, hfresh, before, _, hbefore, Function.update_self _ _ _, hnext⟩
    · obtain ⟨rfl, hfresh', before', rest', hbefore', hrest', hsecure'⟩ :=
        h.working_elsewhere hlock hj (leaving (sharing.lock i) (next (Disk.act op joint.disk).1))
      exact ⟨rfl, hfresh', before', rest', hbefore', hrest',
        secure_of_rely hsecure' (hkeeps _ (sharing.mem j) hlock)⟩

theorem returned_logged (h : sharing.Tidy disk log joint)
    (hi : i ∉ (log (sharing.lock i)).map Prod.fst) (a : α) :
    ∀ l, ∀ visit ∈ sharing.logged log i a l,
      Function.update joint.threads i (.done a) visit.1 = .done visit.2 := by
  have hreturned := h.returned_update hi (.done a)
  refine (Function.forall_update_iff log fun _ visits => ∀ visit ∈ visits,
    Function.update joint.threads i (.done a) visit.1 = .done visit.2).mpr
      ⟨?_, fun l _ => hreturned l⟩
  exact List.forall_mem_append.mpr
    ⟨hreturned _, List.forall_mem_singleton.mpr (Function.update_self _ _ _)⟩

/-- The program that has its lock gives it back and comes to its end. -/
theorem leave (h : sharing.Tidy disk log joint) {a : α} {before : Disk}
    (hholder : joint.holder (sharing.lock i) = some i)
    (hbefore : Succession (sharing.rely (sharing.lock i)) sharing.effect disk (log (sharing.lock i))
      before)
    (hsecure : sharing.Goes i before (.done a) joint.disk) :
    sharing.Tidy disk (sharing.logged log i a)
      { threads := Function.update joint.threads i (.done a)
        holder := Function.update joint.holder (sharing.lock i) none
        disk := joint.disk } := by
  obtain ⟨-, hfresh, -⟩ := h.working _ i hholder
  refine ⟨h.sound, h.own_logged a, h.distinct_logged hfresh a, h.returned_logged hfresh a,
    ?_, ?_, ?_⟩
  · intro j hj hnot
    dsimp only at hnot
    have hne : j ≠ i := by
      rintro rfl
      exact hj (by simp [sharing.logged_self])
    refine (Function.update_of_ne hne _ _).trans (h.waiting j (fun hmem => hj ?_) ?_)
    · exact sharing.subset_logged log i a hmem
    · by_cases hl : sharing.lock j = sharing.lock i
      · rw [hl, hholder]
        exact fun heq => hne (Option.some.inj heq).symm
      · rwa [Function.update_of_ne hl] at hnot
  · intro l hmem hj
    dsimp only at hj
    by_cases hl : l = sharing.lock i
    · subst hl
      rw [sharing.logged_self]
      exact hbefore.concat (sharing.refl _) (hsecure joint.disk h.sound (sharing.refl _ _))
    · rw [Function.update_of_ne hl] at hj
      rw [sharing.logged_of_ne hl]
      exact h.idle l hmem hj
  · intro l j hj
    dsimp only at hj
    by_cases hl : l = sharing.lock i
    · subst hl
      rw [Function.update_self] at hj
      cases hj
    · rw [Function.update_of_ne hl] at hj
      rw [sharing.logged_of_ne hl]
      exact h.working_elsewhere hl hj _

theorem step (h : sharing.Tidy disk log joint) (i : ι) :
    ∃ log', sharing.Tidy disk log' (joint.step i) := by
  cases hthread : joint.threads i with
  | done a => exact ⟨log, by rwa [Joint.step_of_done hthread]⟩
  | step op next =>
    by_cases hholder : joint.holder (sharing.lock i) = some i
    · obtain ⟨-, -, before, rest, hbefore, hrest, hsecure⟩ := h.working _ i hholder
      cases rest with
      | done a =>
        exact ⟨_, by
          rw [Joint.step_of_free (hrest.trans (leaving_done _ a)) rfl]
          exact h.leave hholder hbefore hsecure⟩
      | step op next =>
        obtain ⟨hlocks, -⟩ := hsecure joint.disk h.sound (sharing.refl _ _)
        refine ⟨log, ?_⟩
        rw [Joint.step_of_no_lock (hrest.trans (leaving_step _ op next)) hlocks]
        exact h.work hholder hbefore hsecure
    · have hfresh := h.not_mem_of_step hthread (sharing.lock i)
      have hwaiting := h.waiting i hfresh hholder
      rw [holding_eq] at hwaiting
      refine ⟨log, ?_⟩
      cases hfree : joint.holder (sharing.lock i) with
      | some j =>
        rwa [Joint.step_of_blocked hwaiting (by simp [Joint.isBlocked, hfree])]
      | none =>
        rw [Joint.step_of_free hwaiting (by simp [Joint.isBlocked, hfree])]
        exact h.enter hfresh hfree

theorem turn (h : sharing.Tidy disk log joint) {t : Turn ι} (ht : t.Shows sharing.times) :
    ∃ log', sharing.Tidy disk log' (joint.turn t) := by
  cases t with
  | step i => exact h.step i
  | clock now => exact ⟨log, h.clock ht⟩

theorem playTurns (h : sharing.Tidy disk log joint) {turns : List (Turn ι)}
    (hturns : ∀ t ∈ turns, t.Shows sharing.times) :
    ∃ log', sharing.Tidy disk log' (joint.playTurns turns) := by
  induction turns generalizing log joint with
  | nil => exact ⟨log, h⟩
  | cons t rest ih =>
    obtain ⟨ht, hrest⟩ := List.forall_mem_cons.mp hturns
    obtain ⟨log', h'⟩ := h.turn ht
    exact ih h' hrest

end Tidy

end Sharing

end Jobflow.Files
