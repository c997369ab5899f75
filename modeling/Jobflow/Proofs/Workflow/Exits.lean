import Jobflow.Proofs.Workflow.Nodes
import Jobflow.Proofs.Workflow.Sequencing

/-!
Trees that are certain to exit and trees that cannot. After a tree that is certain to exit the
run never goes on, so nothing that follows it in a sequence is ever carried out; and nothing but
an exit terminates a run.
-/

namespace Jobflow.Workflow

namespace Command

mutual

/-- Whether every way through the tree that does not fail leads to an exit. -/
def alwaysExits : Command → Bool
  | .exit .. => true
  | .sequence children => anyAlwaysExits children
  | .ifElse condition _ none => condition.alwaysExits
  | .ifElse condition whenTrue (some whenFalse) =>
    condition.alwaysExits || (whenTrue.alwaysExits && whenFalse.alwaysExits)
  | _ => false

def anyAlwaysExits : List Command → Bool
  | [] => false
  | child :: rest => child.alwaysExits || anyAlwaysExits rest

end

mutual

/-- Whether there is an exit anywhere in the tree. -/
def hasExit : Command → Bool
  | .exit .. => true
  | .sequence children => anyHasExit children
  | .ifElse condition whenTrue none => condition.hasExit || whenTrue.hasExit
  | .ifElse condition whenTrue (some whenFalse) =>
    condition.hasExit || whenTrue.hasExit || whenFalse.hasExit
  | _ => false

def anyHasExit : List Command → Bool
  | [] => false
  | child :: rest => child.hasExit || anyHasExit rest

end

end Command

/-! ### Certain exits -/

/-- The run does not go on after the execution, whatever the answers are. -/
def Stops (run : Context → Browsing Ended) : Prop :=
  ∀ ctx, Program.Yields (fun _ _ => True) (fun ended => ended.result ≠ .ok .continue) (run ctx)

section
variable {first next whenTrue whenFalse : Context → Browsing Ended}

/-- What follows an execution after which the run does not go on is never carried out. -/
theorem Stops.inTurn_eq (h : Stops first) : inTurn first next = first := by
  funext ctx
  calc inTurn first next ctx
    _ = first ctx >>= pure := (h ctx).bind_congr fun ended hended => Ended.andThen_of_ne hended next
    _ = first ctx := bind_pure _

theorem stops_inTurn_left (h : Stops first) : Stops (inTurn first next) := by
  rwa [h.inTurn_eq]

theorem stops_inTurn_right (h : Stops next) : Stops (inTurn first next) := by
  intro ctx
  exact yields_inTurn (Program.yields_true _) (fun middle _ => h middle) fun _ _ hstop => hstop

theorem stops_byVerdict (htrue : Stops whenTrue) (hfalse : Stops whenFalse) :
    Stops (byVerdict whenTrue whenFalse) := by
  intro ctx
  exact yields_byVerdict (fun _ => htrue ctx) (fun _ => hfalse ctx) (by simp)

end

mutual

theorem stops_execute (command : Command) (h : command.alwaysExits) : Stops (execute command) := by
  cases command with
  | sequence children =>
    rw [execute_sequence]
    exact stops_executeAll children (by rwa [Command.alwaysExits] at h)
  | ifElse condition whenTrue whenFalse =>
    rw [execute_ifElse]
    -- the branch stops with its condition, or with whichever tree it takes
    have hbranch : Stops (inTurn (execute condition)
        (byVerdict (execute whenTrue) (executeElse whenFalse))) := by
      cases whenFalse with
      | none =>
        rw [Command.alwaysExits] at h
        exact stops_inTurn_left (stops_execute condition h)
      | some whenFalse =>
        rw [Command.alwaysExits, Bool.or_eq_true, Bool.and_eq_true] at h
        rcases h with hcondition | ⟨htrue, hfalse⟩
        · exact stops_inTurn_left (stops_execute condition hcondition)
        · rw [executeElse_some]
          exact stops_inTurn_right
            (stops_byVerdict (stops_execute whenTrue htrue) (stops_execute whenFalse hfalse))
    exact fun ctx => hbranch (ctx.remove conditionResult)
  | exit success message =>
    intro ctx
    rw [execute]
    exact Program.yields_pure (by simp)
  | _ => simp [Command.alwaysExits] at h

theorem stops_executeAll (children : List Command) (h : Command.anyAlwaysExits children) :
    Stops (executeAll children) := by
  cases children with
  | nil => simp [Command.anyAlwaysExits] at h
  | cons child rest =>
    rw [Command.anyAlwaysExits, Bool.or_eq_true] at h
    rw [executeAll_cons]
    rcases h with hchild | hrest
    · exact stops_inTurn_left (stops_execute child hchild)
    · exact stops_inTurn_right (stops_executeAll rest hrest)

end

/-- Two sequences that are the same up to a child that is certain to exit. -/
inductive SameToExit : Command → Command → Prop
  | intro (before : List Command) {child : Command} (after after' : List Command) :
      child.alwaysExits →
      SameToExit (.sequence (before ++ child :: after)) (.sequence (before ++ child :: after'))

theorem execute_sameToExit {command command' : Command} (h : SameToExit command command') :
    execute command = execute command' := by
  obtain ⟨before, after, after', hchild⟩ := h
  have hstops := stops_execute _ hchild
  simp only [execute_sequence, executeAll_append, executeAll_cons, hstops.inTurn_eq]

/-! ### No exits -/

section
variable {first next whenTrue whenFalse : Context → Browsing Ended}

theorem neverTerminates_inTurn (hfirst : ∀ ctx, NeverTerminates (first ctx))
    (hnext : ∀ ctx, NeverTerminates (next ctx)) (ctx : Context) :
    NeverTerminates (inTurn first next ctx) :=
  yields_inTurn (hfirst ctx) (fun middle _ => hnext middle) fun _ hended _ => hended

theorem neverTerminates_byVerdict (htrue : ∀ ctx, NeverTerminates (whenTrue ctx))
    (hfalse : ∀ ctx, NeverTerminates (whenFalse ctx)) (ctx : Context) :
    NeverTerminates (byVerdict whenTrue whenFalse ctx) :=
  yields_byVerdict (fun _ => htrue ctx) (fun _ => hfalse ctx) (by simp)

theorem neverTerminates_idle (ctx : Context) : NeverTerminates (idle ctx) :=
  Program.yields_pure (by simp)

end

theorem neverTerminates_leaf {command : Command} (hleaf : command.isLeaf)
    (h : command.hasExit = false) (ctx : Context) : NeverTerminates (execute command ctx) := by
  cases command with
  | sequence | ifElse => cases hleaf
  | exit => cases h
  | navigate | click | fillForm | screenshot =>
    rw [execute]
    exact neverTerminates_continued ..
  | elementExists =>
    rw [execute]
    exact neverTerminates_judge ..

mutual

theorem neverTerminates_execute (command : Command) (h : command.hasExit = false) (ctx : Context) :
    NeverTerminates (execute command ctx) := by
  cases command with
  | sequence children =>
    rw [execute_sequence]
    exact neverTerminates_executeAll children (by rwa [Command.hasExit] at h) ctx
  | ifElse condition whenTrue whenFalse =>
    rw [execute_ifElse]
    cases whenFalse with
    | none =>
      rw [Command.hasExit, Bool.or_eq_false_iff] at h
      obtain ⟨hcondition, htrue⟩ := h
      rw [executeElse_none]
      exact neverTerminates_inTurn (neverTerminates_execute condition hcondition)
        (neverTerminates_byVerdict (neverTerminates_execute whenTrue htrue) neverTerminates_idle) _
    | some whenFalse =>
      rw [Command.hasExit, Bool.or_eq_false_iff, Bool.or_eq_false_iff] at h
      obtain ⟨⟨hcondition, htrue⟩, hfalse⟩ := h
      rw [executeElse_some]
      exact neverTerminates_inTurn (neverTerminates_execute condition hcondition)
        (neverTerminates_byVerdict (neverTerminates_execute whenTrue htrue)
          (neverTerminates_execute whenFalse hfalse)) _
  | _ => exact neverTerminates_leaf rfl h ctx

theorem neverTerminates_executeAll (children : List Command)
    (h : Command.anyHasExit children = false) (ctx : Context) :
    NeverTerminates (executeAll children ctx) := by
  cases children with
  | nil =>
    rw [executeAll_nil]
    exact neverTerminates_idle ctx
  | cons child rest =>
    rw [Command.anyHasExit, Bool.or_eq_false_iff] at h
    rw [executeAll_cons]
    exact neverTerminates_inTurn (neverTerminates_execute child h.1)
      (neverTerminates_executeAll rest h.2) ctx

end

/-- What follows a certain exit is dead. After a tree that is certain to exit the run never goes
on; in any workflow, what follows such a tree in a sequence may be replaced without a change to
the calls, the result, the variables at the end or the world that is left; and a tree without an
exit is never terminated. -/
theorem nothing_follows_certain_exit {W : Type} (d : Driver W) (ctx : Context) (w : W) :
    (∀ command : Command, command.alwaysExits →
      (d.carryOut (execute command ctx) w).result.result ≠ .ok .continue) ∧
    (∀ command command' : Command, Within SameToExit command command' →
      d.carryOut (execute command ctx) w = d.carryOut (execute command' ctx) w) ∧
    ∀ command : Command, command.hasExit = false → ∀ success message,
      (d.carryOut (execute command ctx) w).result.result ≠ .ok (.terminated success message) := by
  refine ⟨?_, ?_, ?_⟩
  · intro command h
    exact d.result_carryOut (fun _ _ => trivial) (stops_execute command h ctx) w
  · intro command command' h
    rw [execute_within (fun _ _ => execute_sameToExit) h]
  · intro command h
    exact d.result_carryOut (fun _ _ => trivial) (neverTerminates_execute command h ctx) w

end Jobflow.Workflow
