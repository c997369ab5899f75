import Jobflow.Proofs.Workflow.InTurn
import Jobflow.Proofs.Workflow.Pages

/-!
Where an execution stops. An execution that fails, but for want of a verdict, was stopped by a node
that holds no others, the last one that was carried out, and it ends as that node does.
-/

namespace Jobflow.Workflow

open Jobflow.Page (Call)

variable {W : Type}

/-- `LastNode d command ctx w before node ctx' w'`: carried out from `ctx` and `w` the tree stops at
a node that holds no others, which is carried out last, from `ctx'` and `w'` and after the calls
`before`. -/
inductive LastNode (d : Driver W) :
    Command → Context → W → List Call → Command → Context → W → Prop
  | leaf {node : Command} {ctx : Context} {w : W} : node.isLeaf →
      (d.carryOut (execute node ctx) w).result.result ≠ .ok .continue →
      LastNode d node ctx w [] node ctx w
  | first {child node : Command} {rest : List Command} {ctx ctx' : Context} {w w' : W}
      {calls : List Call} : LastNode d child ctx w calls node ctx' w' →
      LastNode d (.sequence (child :: rest)) ctx w calls node ctx' w'
  | later {child node : Command} {rest : List Command} {ctx ctx' ctx'' : Context} {w w' w'' : W}
      {calls calls' : List Call} :
      d.carryOut (execute child ctx) w = ⟨calls, ⟨.ok .continue, ctx'⟩, w'⟩ →
      LastNode d (.sequence rest) ctx' w' calls' node ctx'' w'' →
      LastNode d (.sequence (child :: rest)) ctx w (calls ++ calls') node ctx'' w''
  | condition {condition whenTrue node : Command} {whenFalse : Option Command}
      {ctx ctx' : Context} {w w' : W} {calls : List Call} :
      LastNode d condition (ctx.remove conditionResult) w calls node ctx' w' →
      LastNode d (.ifElse condition whenTrue whenFalse) ctx w calls node ctx' w'
  | whenTrue {condition whenTrue node : Command} {whenFalse : Option Command}
      {ctx ctx' ctx'' : Context} {w w' w'' : W} {calls calls' : List Call} :
      d.carryOut (execute condition (ctx.remove conditionResult)) w =
        ⟨calls, ⟨.ok .continue, ctx'⟩, w'⟩ →
      ctx'.flag? conditionResult = some true → LastNode d whenTrue ctx' w' calls' node ctx'' w'' →
      LastNode d (.ifElse condition whenTrue whenFalse) ctx w (calls ++ calls') node ctx'' w''
  | whenFalse {condition whenTrue whenFalse node : Command} {ctx ctx' ctx'' : Context}
      {w w' w'' : W} {calls calls' : List Call} :
      d.carryOut (execute condition (ctx.remove conditionResult)) w =
        ⟨calls, ⟨.ok .continue, ctx'⟩, w'⟩ →
      ctx'.flag? conditionResult = some false → LastNode d whenFalse ctx' w' calls' node ctx'' w'' →
      LastNode d (.ifElse condition whenTrue (some whenFalse)) ctx w
        (calls ++ calls') node ctx'' w''

section
variable {d : Driver W} {first next : Context → Browsing Ended} {ctx ctx' : Context} {w w' : W}
  {calls : List Call}

/-- What follows an execution that lets the run go on is carried out from where that ended. -/
theorem carryOut_inTurn_continue
    (h : d.carryOut (first ctx) w = ⟨calls, ⟨.ok .continue, ctx'⟩, w'⟩) :
    d.carryOut (inTurn first next ctx) w =
      (⟨calls, (), w'⟩ : Carried W Unit).followedBy (d.carryOut (next ctx') w') := by
  rw [inTurn, Driver.carryOut_bind, h]
  rfl

theorem carryOut_inTurn_stop (h : (d.carryOut (first ctx) w).result.result ≠ .ok .continue) :
    d.carryOut (inTurn first next ctx) w = d.carryOut (first ctx) w := by
  rw [inTurn, Driver.carryOut_bind, Ended.andThen_of_ne h, Driver.carryOut_pure, Carried.followedBy,
    List.append_nil]

end

section
variable {d : Driver W} {command node : Command} {ctx ctx' : Context} {w w' : W}
  {before : List Call}

theorem LastNode.isLeaf (h : LastNode d command ctx w before node ctx' w') : node.isLeaf := by
  induction h with
  | leaf hleaf _ => exact hleaf
  | _ => assumption

/-- An execution ends as its last node does. -/
theorem LastNode.carryOut_eq (h : LastNode d command ctx w before node ctx' w') :
    (d.carryOut (execute node ctx') w').result.result ≠ .ok .continue ∧
      d.carryOut (execute command ctx) w =
        (⟨before, (), w'⟩ : Carried W Unit).followedBy (d.carryOut (execute node ctx') w') := by
  induction h with
  | leaf _ hstop => exact ⟨hstop, rfl⟩
  | @first child node rest _ _ _ _ _ _ ih =>
    obtain ⟨hstop, hcarried⟩ := ih
    refine ⟨hstop, ?_⟩
    rw [execute_sequence, executeAll_cons, carryOut_inTurn_stop, hcarried]
    rwa [hcarried]
  | later hfirst _ ih =>
    obtain ⟨hstop, hcarried⟩ := ih
    refine ⟨hstop, ?_⟩
    rw [execute_sequence] at hcarried
    rw [execute_sequence, executeAll_cons, carryOut_inTurn_continue hfirst, hcarried]
    simp [Carried.followedBy]
  | condition _ ih =>
    obtain ⟨hstop, hcarried⟩ := ih
    refine ⟨hstop, ?_⟩
    rw [execute_ifElse, carryOut_inTurn_stop, hcarried]
    rwa [hcarried]
  | whenTrue hcondition hverdict _ ih =>
    obtain ⟨hstop, hcarried⟩ := ih
    refine ⟨hstop, ?_⟩
    rw [execute_ifElse, carryOut_inTurn_continue hcondition, byVerdict, hverdict, hcarried]
    simp [Carried.followedBy]
  | whenFalse hcondition hverdict _ ih =>
    obtain ⟨hstop, hcarried⟩ := ih
    refine ⟨hstop, ?_⟩
    rw [execute_ifElse, carryOut_inTurn_continue hcondition, byVerdict, hverdict, executeElse_some,
      hcarried]
    simp [Carried.followedBy]

end

/-- The last node finds the page with the calls that were made before it. -/
theorem LastNode.history_eq {d : PageDriver W}
    (h : LastNode d.toDriver command ctx w before node ctx' w') :
    d.history w' = d.history w ++ before := by
  have hpassed {child : Command} {ctx ctx' : Context} {w w' : W} {calls : List Call}
      (hchild : d.carryOut (execute child ctx) w = ⟨calls, ⟨.ok .continue, ctx'⟩, w'⟩) :
      d.history w' = d.history w ++ calls := by
    have hkept := d.history_carryOut (execute child ctx) w
    rwa [hchild] at hkept
  induction h with
  | leaf => exact (List.append_nil _).symm
  | first _ ih => exact ih
  | later hfirst _ ih => rw [ih, hpassed hfirst, List.append_assoc]
  | condition _ ih => exact ih
  | whenTrue hcondition _ _ ih => rw [ih, hpassed hcondition, List.append_assoc]
  | whenFalse hcondition _ _ ih => rw [ih, hpassed hcondition, List.append_assoc]

/-- The execution stops at a node that holds no others. -/
def HasLastNode (d : Driver W) (command : Command) (ctx : Context) (w : W) : Prop :=
  ∃ before node ctx' w', LastNode d command ctx w before node ctx' w'

mutual

/-- An execution that fails, but for want of a verdict, has a last node. -/
theorem exists_lastNode (d : Driver W) {e : FlowError} (he : e ≠ .conditionNotSet)
    (command : Command) {ctx : Context} {w : W}
    (h : (d.carryOut (execute command ctx) w).result.result = .error e) :
    HasLastNode d command ctx w := by
  cases command with
  | sequence children => exact exists_lastNode_sequence d he children h
  | ifElse condition whenTrue whenFalse =>
    by_cases hgo : (d.carryOut (execute condition (ctx.remove conditionResult)) w).result.result =
        .ok .continue
    · generalize hcondition : d.carryOut (execute condition (ctx.remove conditionResult)) w = judged
        at hgo
      obtain ⟨calls, ⟨result, ctx'⟩, w'⟩ := judged
      obtain rfl : result = .ok .continue := hgo
      rw [execute_ifElse, carryOut_inTurn_continue hcondition, byVerdict] at h
      split at h
      · next hverdict =>
        obtain ⟨before, node, ctx'', w'', hlast⟩ := exists_lastNode d he whenTrue h
        exact ⟨_, node, ctx'', w'', .whenTrue hcondition hverdict hlast⟩
      · next hverdict =>
        cases whenFalse with
        | none => simp [executeElse_none, idle, Carried.followedBy] at h
        | some whenFalse =>
          rw [executeElse_some] at h
          obtain ⟨before, node, ctx'', w'', hlast⟩ := exists_lastNode d he whenFalse h
          exact ⟨_, node, ctx'', w'', .whenFalse hcondition hverdict hlast⟩
      · exact absurd (Except.error.inj h).symm he
    · rw [execute_ifElse, carryOut_inTurn_stop hgo] at h
      obtain ⟨before, node, ctx', w', hlast⟩ := exists_lastNode d he condition h
      exact ⟨before, node, ctx', w', .condition hlast⟩
  | _ => exact ⟨[], _, ctx, w, .leaf rfl (by simp [h])⟩

theorem exists_lastNode_sequence (d : Driver W) {e : FlowError} (he : e ≠ .conditionNotSet)
    (children : List Command) {ctx : Context} {w : W}
    (h : (d.carryOut (execute (.sequence children) ctx) w).result.result = .error e) :
    HasLastNode d (.sequence children) ctx w := by
  cases children with
  | nil => simp [execute_sequence, executeAll_nil, idle] at h
  | cons child rest =>
    rw [execute_sequence, executeAll_cons] at h
    by_cases hgo : (d.carryOut (execute child ctx) w).result.result = .ok .continue
    · generalize hchild : d.carryOut (execute child ctx) w = first at hgo
      obtain ⟨calls, ⟨result, ctx'⟩, w'⟩ := first
      obtain rfl : result = .ok .continue := hgo
      rw [carryOut_inTurn_continue hchild, ← execute_sequence] at h
      obtain ⟨before, node, ctx'', w'', hlast⟩ := exists_lastNode_sequence d he rest h
      exact ⟨_, node, ctx'', w'', .later hchild hlast⟩
    · rw [carryOut_inTurn_stop hgo] at h
      obtain ⟨before, node, ctx', w', hlast⟩ := exists_lastNode d he child h
      exact ⟨before, node, ctx', w', .first hlast⟩

end

end Jobflow.Workflow
