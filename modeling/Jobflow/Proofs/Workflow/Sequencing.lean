import Jobflow.Proofs.Run.Chronicle
import Jobflow.Proofs.Workflow.InTurn
import Mathlib.Logic.Relation

/-!
Regrouping. A node can be replaced by any with the same execution. A sequence in a sequence is
taken apart, and what follows a branch moves into both of its trees: however a tree is regrouped,
its execution stays the same program.
-/

namespace Jobflow.Workflow

/-! ### Branches -/

/-- What follows a branch follows either of its trees, even one that is not there. -/
theorem execute_ifElse_inTurn (condition whenTrue : Command) (whenFalse : Option Command)
    (rest : List Command) :
    inTurn (execute (.ifElse condition whenTrue whenFalse)) (executeAll rest) =
      execute (.ifElse condition (.sequence (whenTrue :: rest))
        (some (.sequence (whenFalse.toList ++ rest)))) := by
  have helse : executeAll (whenFalse.toList ++ rest) =
      inTurn (executeElse whenFalse) (executeAll rest) := by
    cases whenFalse with
    | none => rw [Option.toList_none, List.nil_append, executeElse_none, idle_inTurn]
    | some command =>
      rw [Option.toList_some, List.singleton_append, executeAll_cons, executeElse_some]
  funext ctx
  calc inTurn (execute (.ifElse condition whenTrue whenFalse)) (executeAll rest) ctx
    _ = inTurn (inTurn (execute condition) (byVerdict (execute whenTrue) (executeElse whenFalse)))
          (executeAll rest) (ctx.remove conditionResult) := by rw [execute_ifElse]; rfl
    _ = inTurn (execute condition) (byVerdict (inTurn (execute whenTrue) (executeAll rest))
          (inTurn (executeElse whenFalse) (executeAll rest))) (ctx.remove conditionResult) := by
        rw [inTurn_assoc, byVerdict_inTurn]
    _ = execute (.ifElse condition (.sequence (whenTrue :: rest))
          (some (.sequence (whenFalse.toList ++ rest)))) ctx := by
        rw [execute_ifElse, executeElse_some, execute_sequence, execute_sequence, executeAll_cons,
          helse]

/-! ### Replacing a node -/

/-- `Within R command command'`: a node somewhere in the tree is replaced by one to which `R`
relates it, and the rest of the tree stays as it is. -/
inductive Within (R : Command → Command → Prop) : Command → Command → Prop
  | here {command command' : Command} : R command command' → Within R command command'
  | child {child child' : Command} (before after : List Command) : Within R child child' →
      Within R (.sequence (before ++ child :: after)) (.sequence (before ++ child' :: after))
  | condition {condition condition' : Command} (whenTrue : Command) (whenFalse : Option Command) :
      Within R condition condition' →
      Within R (.ifElse condition whenTrue whenFalse) (.ifElse condition' whenTrue whenFalse)
  | whenTrue {whenTrue whenTrue' : Command} (condition : Command) (whenFalse : Option Command) :
      Within R whenTrue whenTrue' →
      Within R (.ifElse condition whenTrue whenFalse) (.ifElse condition whenTrue' whenFalse)
  | whenFalse {whenFalse whenFalse' : Command} (condition whenTrue : Command) :
      Within R whenFalse whenFalse' →
      Within R (.ifElse condition whenTrue (some whenFalse))
        (.ifElse condition whenTrue (some whenFalse'))

/-- A node can be replaced by one with the same execution. -/
theorem execute_within {R : Command → Command → Prop}
    (hR : ∀ command command', R command command' → execute command = execute command')
    {command command' : Command} (h : Within R command command') :
    execute command = execute command' := by
  induction h with
  | here h => exact hR _ _ h
  | child before after _ ih =>
    rw [execute_sequence, execute_sequence, executeAll_append, executeAll_append, executeAll_cons,
      executeAll_cons, ih]
  | condition whenTrue whenFalse _ ih => rw [execute_ifElse, execute_ifElse, ih]
  | whenTrue condition whenFalse _ ih => rw [execute_ifElse, execute_ifElse, ih]
  | whenFalse condition whenTrue _ ih =>
    rw [execute_ifElse, execute_ifElse, executeElse_some, executeElse_some, ih]

/-! ### Regrouping -/

/-- One step of regrouping at a node. -/
inductive Regroups : Command → Command → Prop
  /-- the children of a sequence take its place among those of the sequence around it -/
  | splice (before children after : List Command) :
      Regroups (.sequence (before ++ .sequence children :: after))
        (.sequence (before ++ children ++ after))
  | single (child : Command) : Regroups (.sequence [child]) child
  | emptyElse (condition whenTrue : Command) :
      Regroups (.ifElse condition whenTrue none) (.ifElse condition whenTrue (some (.sequence [])))
  /-- what follows a branch moves to the end of both of its trees -/
  | intoBranches (before : List Command) (condition whenTrue : Command)
      (whenFalse : Option Command) (rest : List Command) :
      Regroups (.sequence (before ++ .ifElse condition whenTrue whenFalse :: rest))
        (.sequence (before ++ [.ifElse condition (.sequence (whenTrue :: rest))
          (some (.sequence (whenFalse.toList ++ rest)))]))

theorem execute_regroups {command command' : Command} (h : Regroups command command') :
    execute command = execute command' := by
  cases h with
  | splice before children after =>
    simp only [execute_sequence, executeAll_append, executeAll_cons, inTurn_assoc]
  | single child => rw [execute_sequence, executeAll_cons, executeAll_nil, inTurn_idle]
  | emptyElse condition whenTrue =>
    rw [execute_ifElse, execute_ifElse, executeElse_none, executeElse_some, execute_sequence,
      executeAll_nil]
  | intoBranches before condition whenTrue whenFalse rest =>
    rw [execute_sequence, execute_sequence, executeAll_append, executeAll_append, executeAll_cons,
      executeAll_cons, executeAll_nil, inTurn_idle, execute_ifElse_inTurn]

/-- One tree comes from the other by any number of steps of regrouping, in either direction and
at any nodes. -/
def Regrouped : Command → Command → Prop := Relation.EqvGen (Within Regroups)

theorem Regrouped.execute_eq {command command' : Command} (h : Regrouped command command') :
    execute command = execute command' := by
  induction h with
  | rel _ _ h => exact execute_within (fun _ _ => execute_regroups) h
  | refl _ => rfl
  | symm _ _ _ ih => exact ih.symm
  | trans _ _ _ _ _ ih ih' => exact ih.trans ih'

open Jobflow.Run (Cancellation Host SessionId drive eventsAlone runAlone)

/-- Regrouping a tree changes nothing: every driver is asked for the same calls in the same
order, and the result, the variables at the end and the world that is left are the same. In a
session that may be stopped the two executions do the same at the same times. -/
theorem regrouping_changes_nothing {command command' : Command} (h : Regrouped command command')
    (ctx : Context) :
    (∀ {W : Type} (d : Driver W) (w : W),
      d.carryOut (execute command ctx) w = d.carryOut (execute command' ctx) w) ∧
    ∀ {W : Type} (host : Host W) (cancel : Cancellation) (session : SessionId) (time : Nat) (w : W),
      let run := drive session (execute command ctx)
      let run' := drive session (execute command' ctx)
      eventsAlone host cancel run time w = eventsAlone host cancel run' time w ∧
      runAlone host cancel run time w = runAlone host cancel run' time w := by
  rw [h.execute_eq]
  exact ⟨fun _ _ => rfl, fun _ _ _ _ _ => ⟨rfl, rfl⟩⟩

/-- A tree with a sequence in a sequence, and with a node after a branch. -/
def applying : Command :=
  .sequence [.sequence [.navigate "https://example.com" .load],
    .ifElse (.elementExists "#applied" none) (.exit true none) none, .click "#apply" none .nothing]

/-- The same in one sequence that ends with the branch. -/
def applyingLast : Command :=
  .sequence [.navigate "https://example.com" .load,
    .ifElse (.elementExists "#applied" none)
      (.sequence [.exit true none, .click "#apply" none .nothing])
      (some (.sequence [.click "#apply" none .nothing]))]

theorem regrouping_changes_nothing_applying :
    Regrouped applying applyingLast ∧
      ∀ {W : Type} (d : Driver W) (w : W),
        d.carryOut (execute applying .empty) w = d.carryOut (execute applyingLast .empty) w := by
  have hregrouped : Regrouped applying applyingLast :=
    .trans _ _ _ (.rel _ _ (.here (.splice [] [.navigate "https://example.com" .load] _)))
      (.rel _ _ (.here (.intoBranches [.navigate "https://example.com" .load]
        (.elementExists "#applied" none) (.exit true none) none [.click "#apply" none .nothing])))
  exact ⟨hregrouped, (regrouping_changes_nothing hregrouped .empty).1⟩

end Jobflow.Workflow
