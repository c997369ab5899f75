import Jobflow.Proofs.Workflow.FirstFault
import Mathlib.Data.List.Forall2

/-!
The places of the nodes in a tree. A path from the root leads to one node or to none, and the paths
that lead to nodes stand in the order of the document. Two trees have the same shape if nodes of the
same kinds stand at the same paths.
-/

namespace Jobflow.Workflow

open List (Forall₂)

namespace Command

variable {command other child : Command} {step : Step} {path : NodePath}

/-- The node that a step leads to. -/
def child? : Command → Step → Option Command
  | .sequence children, .command index => children[index]?
  | .ifElse condition _ _, .condition => some condition
  | .ifElse _ whenTrue _, .whenTrue => some whenTrue
  | .ifElse _ _ whenFalse, .whenFalse => whenFalse
  | _, _ => none

/-- The node that a path leads to. -/
def at? (command : Command) : NodePath → Option Command
  | [] => some command
  | step :: path => (command.child? step).bind fun child => child.at? path

theorem at?_cons_eq_some_iff {node : Command} : command.at? (step :: path) = some node ↔
    ∃ child, command.child? step = some child ∧ child.at? path = some node :=
  Option.bind_eq_some_iff

/-! ### Branches -/

/-- The steps from a node with the nodes that they lead to, in the order of the document. -/
def branches : Command → List (Step × Command)
  | .sequence children => children.zipIdx.map fun (child, index) => (.command index, child)
  | .ifElse condition whenTrue none => [(.condition, condition), (.whenTrue, whenTrue)]
  | .ifElse condition whenTrue (some whenFalse) =>
    [(.condition, condition), (.whenTrue, whenTrue), (.whenFalse, whenFalse)]
  | _ => []

theorem mem_branches_iff : (step, child) ∈ command.branches ↔ command.child? step = some child := by
  cases command with
  | sequence children =>
    cases step <;> simp [branches, child?, List.mem_zipIdx_iff_getElem?]
  | ifElse condition whenTrue whenFalse =>
    cases whenFalse <;> cases step <;> simp [branches, child?, eq_comm]
  | _ => simp [branches, child?]

theorem sizeOf_lt_of_mem_branches (h : (step, child) ∈ command.branches) :
    sizeOf child < sizeOf command := by
  cases command with
  | sequence children =>
    simp only [branches, List.mem_map, Prod.mk.injEq] at h
    obtain ⟨⟨_, index⟩, hmem, -, rfl⟩ := h
    have hlt := List.sizeOf_lt_of_mem (List.fst_mem_of_mem_zipIdx hmem)
    rw [sequence.sizeOf_spec]
    omega
  | ifElse condition whenTrue whenFalse =>
    cases whenFalse with
    | none =>
      simp only [branches, List.mem_cons, Prod.mk.injEq, List.not_mem_nil, or_false] at h
      rw [ifElse.sizeOf_spec]
      rcases h with ⟨-, rfl⟩ | ⟨-, rfl⟩ <;> omega
    | some whenFalse =>
      simp only [branches, List.mem_cons, Prod.mk.injEq, List.not_mem_nil, or_false] at h
      rw [ifElse.sizeOf_spec, Option.some.sizeOf_spec]
      rcases h with ⟨-, rfl⟩ | ⟨-, rfl⟩ | ⟨-, rfl⟩ <;> omega
  | _ => cases h

/-- What holds of a tree whenever it holds of its branches holds of every tree. -/
theorem branches_induction {motive : Command → Prop}
    (h : ∀ command, (∀ branch ∈ command.branches, motive branch.2) → motive command)
    (command : Command) : motive command :=
  h command fun branch _hbranch => branches_induction h branch.2
termination_by sizeOf command
decreasing_by exact sizeOf_lt_of_mem_branches _hbranch

theorem pairwise_branches (command : Command) :
    command.branches.Pairwise fun branch later => branch.1.Before later.1 := by
  cases command with
  | sequence children =>
    rw [branches, List.pairwise_map]
    have hindices : (children.zipIdx.map Prod.snd).Pairwise (· < ·) := by
      rw [List.zipIdx_map_snd]
      exact List.pairwise_lt_range'
    exact (List.pairwise_map.mp hindices).imp .command
  | ifElse condition whenTrue whenFalse =>
    cases whenFalse <;>
      simp [branches, Step.Before.conditionThen, Step.Before.conditionElse, Step.Before.thenElse]
  | _ => exact .nil

/-- The steps from a node of that kind with so many branches. -/
def stepsOf (kind : String) (count : Nat) : List Step :=
  if kind = "sequence" then (List.range count).map .command
  else [Step.condition, .whenTrue, .whenFalse].take count

theorem map_fst_branches (command : Command) :
    command.branches.map Prod.fst = stepsOf command.kind command.branches.length := by
  cases command with
  | sequence children =>
    calc (branches (.sequence children)).map Prod.fst
      _ = (children.zipIdx.map Prod.snd).map .command := by
        simp only [branches, List.map_map, Function.comp_def]
      _ = stepsOf "sequence" (branches (.sequence children)).length := by
        rw [List.zipIdx_map_snd, ← List.range_eq_range']
        simp [branches, stepsOf]
  | ifElse condition whenTrue whenFalse => cases whenFalse <;> rfl
  | _ => rfl

/-! ### The paths to the nodes -/

theorem childPaths_eq (index : Nat) (children : List Command) :
    childPaths index children = (children.zipIdx index).flatMap fun child =>
      child.1.nodePaths.map (.command child.2 :: ·) := by
  induction children generalizing index with
  | nil => rfl
  | cons child rest ih => rw [childPaths, ih, List.zipIdx_cons, List.flatMap_cons]

/-- The root, and then the nodes of one branch after another. -/
theorem nodePaths_eq (command : Command) : command.nodePaths = [] ::
    command.branches.flatMap fun branch => branch.2.nodePaths.map (branch.1 :: ·) := by
  cases command with
  | sequence children => rw [nodePaths, childPaths_eq, branches, List.flatMap_map]
  | ifElse condition whenTrue whenFalse => cases whenFalse <;> simp [nodePaths, branches]
  | _ => rfl

theorem mem_nodePaths_iff :
    path ∈ command.nodePaths ↔ ∃ node, command.at? path = some node := by
  induction path generalizing command with
  | nil =>
    rw [nodePaths_eq]
    simp [at?]
  | cons step path ih =>
    have hbranch : step :: path ∈ command.nodePaths ↔
        ∃ child, (step, child) ∈ command.branches ∧ path ∈ child.nodePaths := by
      rw [nodePaths_eq]
      simp
    simp only [hbranch, mem_branches_iff, ih, at?_cons_eq_some_iff]
    exact ⟨fun ⟨child, hchild, node, hnode⟩ => ⟨node, child, hchild, hnode⟩,
      fun ⟨node, child, hchild, hnode⟩ => ⟨child, hchild, node, hnode⟩⟩

theorem pairwise_nodePaths (command : Command) : command.nodePaths.Pairwise Precedes := by
  induction command using branches_induction with
  | h command ih =>
    rw [nodePaths_eq, List.pairwise_cons, List.pairwise_flatMap]
    -- the root stands before all, and then order is kept within a branch and between two branches
    refine ⟨fun path hpath => ?_, fun branch hbranch => ?_, ?_⟩
    · obtain ⟨branch, -, hpath⟩ := List.mem_flatMap.mp hpath
      obtain ⟨rest, -, rfl⟩ := List.mem_map.mp hpath
      exact .nil
    · exact (ih branch hbranch).map _ fun _ _ => .cons
    · refine command.pairwise_branches.imp fun hbefore path hpath later hlater => ?_
      obtain ⟨_, -, rfl⟩ := List.mem_map.mp hpath
      obtain ⟨_, -, rfl⟩ := List.mem_map.mp hlater
      exact .rel hbefore

/-! ### Shapes -/

/-- Nodes of the same kinds stand at the same paths. -/
def SameShape (command other : Command) : Prop :=
  ∀ path, (command.at? path).map kind = (other.at? path).map kind

/-- Nodes of one kind with as many branches have the same steps to their branches. -/
theorem exists_child?_of_forall₂ {R : Command → Command → Prop} (hkind : command.kind = other.kind)
    (h : Forall₂ (fun branch branch' => R branch.2 branch'.2) command.branches other.branches)
    (hchild : command.child? step = some child) :
    ∃ child', other.child? step = some child' ∧ R child child' := by
  -- the number of a branch tells its step, so the branches of one number have the same step
  have hsteps : command.branches.map Prod.fst = other.branches.map Prod.fst := by
    rw [map_fst_branches, map_fst_branches, hkind, h.length_eq]
  obtain ⟨i, hi, hbranch⟩ := List.getElem_of_mem (mem_branches_iff.mpr hchild)
  have hi' : i < other.branches.length := h.length_eq ▸ hi
  have hstep : step = other.branches[i].1 := by
    have hget := List.getElem_of_eq hsteps (i := i) (by simpa using hi)
    rwa [List.getElem_map, List.getElem_map, hbranch] at hget
  have hrelated := h.get hi hi'
  rw [List.get_eq_getElem, List.get_eq_getElem, hbranch] at hrelated
  exact ⟨_, mem_branches_iff.mp (hstep ▸ List.getElem_mem hi'), hrelated⟩

theorem sameShape_of_branches (hkind : command.kind = other.kind)
    (h : Forall₂ (fun branch branch' => branch.2.SameShape branch'.2) command.branches
      other.branches) :
    command.SameShape other := by
  intro path
  cases path with
  | nil => exact congrArg some hkind
  | cons step path =>
    rw [at?, at?]
    cases hchild : command.child? step with
    | some child =>
      obtain ⟨child', hchild', hsame⟩ := exists_child?_of_forall₂ hkind h hchild
      rw [hchild']
      exact hsame path
    | none =>
      cases hchild' : other.child? step with
      | none => rfl
      | some child' =>
        obtain ⟨child, hsome, -⟩ := exists_child?_of_forall₂ (R := flip SameShape) hkind.symm
          h.flip hchild'
        rw [hchild] at hsome
        cases hsome

end Command

end Jobflow.Workflow
