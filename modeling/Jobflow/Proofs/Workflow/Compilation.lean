import Jobflow.Proofs.Workflow.Fields

/-!
The compiler follows the grammar of workflow documents: it yields a tree exactly for
the values that denote one, and that tree. What a node accepts is first said of one
node, in terms of the nodes below it.
-/

namespace Jobflow.Workflow

open Jobflow.Json

variable {node : Node} {path : NodePath}

/-! ### One node -/

/-- The trees below a sequence. -/
def compileCommands (path : NodePath) (node : Node) : Except CompileError (List Command) :=
  match present? node "commands" with
  | none => .ok []
  | some (.array items) => compileNodes path 0 items
  | some _ => .error (.atNode path .commandsNotArray)

/-- The tree in a field that must be there. -/
def compileField (path : NodePath) (node : Node) (step : Step) (field : String)
    (missing : NodeFault) : Except CompileError Command :=
  match present? node field with
  | none => .error (.atNode path missing)
  | some value => compileNode (path ++ [step]) value

/-- The tree of a branch that may be missing. -/
def compileElse (path : NodePath) (node : Node) : Except CompileError (Option Command) :=
  match present? node "else" with
  | none => .ok none
  | some value => do return some (← compileNode (path ++ [.whenFalse]) value)

theorem compileNode_sequence (hkind : OfKind node "sequence") :
    compileNode path (.object node) = do return .sequence (← compileCommands path node) := by
  rw [compileNode, nodeKind_eq_ok_iff.mpr hkind, located, ok_bind]
  simp only [compileCommands]
  split
  · next h => rw [h, ok_bind]
  · next h => rw [h]
  · next value hother h =>
    rw [h]
    cases value with
    | array items => exact absurd rfl (hother items)
    | _ => rfl

theorem compileNode_ifElse (hkind : OfKind node "ifelse") :
    compileNode path (.object node) = do
      let condition ← compileField path node .condition "condition" .conditionMissing
      let whenTrue ← compileField path node .whenTrue "then" .thenMissing
      let whenFalse ← compileElse path node
      return .ifElse condition whenTrue whenFalse := by
  rw [compileNode, nodeKind_eq_ok_iff.mpr hkind, located, ok_bind]
  simp only [compileField, compileElse]
  split
  · next h => rw [h, error_bind, error_bind]
  · next c h =>
    rw [h]
    refine congrArg (compileNode (path ++ [.condition]) c >>= ·) (funext fun condition => ?_)
    split
    · next h => rw [h, error_bind, error_bind]
    · next t h =>
      rw [h]
      refine congrArg (compileNode (path ++ [.whenTrue]) t >>= ·) (funext fun whenTrue => ?_)
      split
      · next h => rw [h, ok_bind]
      · next h =>
        rw [h, bind_assoc]
        rfl

theorem compileNode_leaf {kind : String} (hkind : OfKind node kind) (hseq : kind ≠ "sequence")
    (hif : kind ≠ "ifelse") :
    compileNode path (.object node) = located path (compileLeaf kind node) := by
  rw [compileNode, nodeKind_eq_ok_iff.mpr hkind, located, ok_bind]
  split
  · contradiction
  · contradiction
  · rfl

/-- A node is a sequence, a branch, or one that is compiled, or at fault, all by itself. -/
theorem kind_or_located (node : Node) :
    OfKind node "sequence" ∨ OfKind node "ifelse" ∨
      ∃ own : Except NodeFault Command,
        ∀ path, compileNode path (.object node) = located path own := by
  cases hnode : nodeKind node with
  | error fault =>
    refine .inr (.inr ⟨.error fault, fun path => ?_⟩)
    rw [compileNode, hnode]
    rfl
  | ok kind =>
    have hkind := nodeKind_eq_ok_iff.mp hnode
    by_cases hseq : kind = "sequence"
    · exact .inl (hseq ▸ hkind)
    by_cases hif : kind = "ifelse"
    · exact .inr (.inl (hif ▸ hkind))
    exact .inr (.inr ⟨compileLeaf kind node, fun path => compileNode_leaf hkind hseq hif⟩)

theorem compileCommands_eq_ok_iff {children : List Command} :
    compileCommands path node = .ok children ↔
      (Lacks node "commands" ∧ children = []) ∨
        ∃ items, Dict.find? "commands" node = some (.array items) ∧
          compileNodes path 0 items = .ok children := by
  unfold compileCommands
  rcases lacks_or_holds node "commands" with hlacks | ⟨value, hholds⟩
  · have hfind (items : List Value) : Dict.find? "commands" node ≠ some (.array items) :=
      fun hitems => not_lacks_of_holds ⟨hitems, by simp⟩ hlacks
    rw [present?_eq_none_iff.mpr hlacks]
    simp [hlacks, hfind, eq_comm]
  · rw [present?_eq_some_iff.mpr hholds, hholds.1]
    have hnot : ¬ Lacks node "commands" := not_lacks_of_holds hholds
    cases value with
    | array items => simp [hnot]
    | _ => simp [hnot]

theorem compileField_eq_ok_iff {step : Step} {field : String} {missing : NodeFault}
    {command : Command} :
    compileField path node step field missing = .ok command ↔
      ∃ value, Holds node field value ∧ compileNode (path ++ [step]) value = .ok command := by
  unfold compileField
  rcases lacks_or_holds node field with hlacks | ⟨value, hholds⟩
  · rw [present?_eq_none_iff.mpr hlacks]
    simp [not_holds_of_lacks hlacks]
  · rw [present?_eq_some_iff.mpr hholds]
    exact ⟨fun h => ⟨value, hholds, h⟩, fun ⟨other, hother, h⟩ => hholds.unique hother ▸ h⟩

theorem compileElse_eq_ok_iff {branch : Option Command} :
    compileElse path node = .ok branch ↔
      (Lacks node "else" ∧ branch = none) ∨
        ∃ value whenFalse, Holds node "else" value ∧
          compileNode (path ++ [.whenFalse]) value = .ok whenFalse ∧ branch = some whenFalse := by
  unfold compileElse
  rcases lacks_or_holds node "else" with hlacks | ⟨value, hholds⟩
  · rw [present?_eq_none_iff.mpr hlacks]
    simp [hlacks, not_holds_of_lacks hlacks, eq_comm]
  · have hnot : ¬ Lacks node "else" := not_lacks_of_holds hholds
    rw [present?_eq_some_iff.mpr hholds]
    simp only [bind_eq_ok_iff, pure_eq_ok_iff, hnot, false_and, false_or]
    constructor
    · rintro ⟨whenFalse, h, rfl⟩
      exact ⟨value, whenFalse, hholds, h, rfl⟩
    · rintro ⟨other, whenFalse, hother, h, rfl⟩
      exact ⟨whenFalse, hholds.unique hother ▸ h, rfl⟩

theorem compileNode_sequence_iff (hkind : OfKind node "sequence") {command : Command} :
    compileNode path (.object node) = .ok command ↔
      (Lacks node "commands" ∧ command = .sequence []) ∨
        ∃ items children, Dict.find? "commands" node = some (.array items) ∧
          compileNodes path 0 items = .ok children ∧ command = .sequence children := by
  rw [compileNode_sequence hkind]
  simp only [bind_eq_ok_iff, pure_eq_ok_iff, compileCommands_eq_ok_iff]
  constructor
  · rintro ⟨children, ⟨hlacks, rfl⟩ | ⟨items, hitems, hchildren⟩, rfl⟩
    · exact .inl ⟨hlacks, rfl⟩
    · exact .inr ⟨items, children, hitems, hchildren, rfl⟩
  · rintro (⟨hlacks, rfl⟩ | ⟨items, children, hitems, hchildren, rfl⟩)
    · exact ⟨[], .inl ⟨hlacks, rfl⟩, rfl⟩
    · exact ⟨children, .inr ⟨items, hitems, hchildren⟩, rfl⟩

theorem compileNode_ifElse_iff (hkind : OfKind node "ifelse") {command : Command} :
    compileNode path (.object node) = .ok command ↔
      ∃ c condition t whenTrue, Holds node "condition" c ∧
        compileNode (path ++ [.condition]) c = .ok condition ∧ Holds node "then" t ∧
        compileNode (path ++ [.whenTrue]) t = .ok whenTrue ∧
        ((Lacks node "else" ∧ command = .ifElse condition whenTrue none) ∨
          ∃ e whenFalse, Holds node "else" e ∧
            compileNode (path ++ [.whenFalse]) e = .ok whenFalse ∧
            command = .ifElse condition whenTrue (some whenFalse)) := by
  rw [compileNode_ifElse hkind]
  simp only [bind_eq_ok_iff, pure_eq_ok_iff, compileField_eq_ok_iff, compileElse_eq_ok_iff]
  constructor
  · rintro ⟨condition, ⟨c, hc, hcondition⟩, whenTrue, ⟨t, ht, hwhenTrue⟩, branch, helse, rfl⟩
    refine ⟨c, condition, t, whenTrue, hc, hcondition, ht, hwhenTrue, ?_⟩
    rcases helse with ⟨hlacks, rfl⟩ | ⟨e, whenFalse, he, hwhenFalse, rfl⟩
    · exact .inl ⟨hlacks, rfl⟩
    · exact .inr ⟨e, whenFalse, he, hwhenFalse, rfl⟩
  · rintro ⟨c, condition, t, whenTrue, hc, hcondition, ht, hwhenTrue, helse⟩
    refine ⟨condition, ⟨c, hc, hcondition⟩, whenTrue, ⟨t, ht, hwhenTrue⟩, ?_⟩
    rcases helse with ⟨hlacks, rfl⟩ | ⟨e, whenFalse, he, hwhenFalse, rfl⟩
    · exact ⟨none, .inl ⟨hlacks, rfl⟩, rfl⟩
    · exact ⟨some whenFalse, .inr ⟨e, whenFalse, he, hwhenFalse, rfl⟩, rfl⟩

theorem compileNode_leaf_iff {kind : String} (hkind : OfKind node kind) (hseq : kind ≠ "sequence")
    (hif : kind ≠ "ifelse") {command : Command} :
    compileNode path (.object node) = .ok command ↔ compileLeaf kind node = .ok command := by
  rw [compileNode_leaf hkind hseq hif, located_eq_ok_iff]

/-- What compiles is an object of one of the eight kinds. -/
theorem kind_of_compileNode {value : Value} {command : Command}
    (h : compileNode path value = .ok command) :
    ∃ node kind, value = .object node ∧ OfKind node kind ∧
      (kind = "sequence" ∨ kind = "ifelse" ∨ compileLeaf kind node = .ok command) := by
  cases value with
  | object node =>
    have hnode := h
    rw [compileNode] at hnode
    obtain ⟨kind, hkind, -⟩ := bind_eq_ok_iff.mp hnode
    rw [located_eq_ok_iff, nodeKind_eq_ok_iff] at hkind
    refine ⟨node, kind, rfl, hkind, ?_⟩
    by_cases hseq : kind = "sequence"
    · exact .inl hseq
    · by_cases hif : kind = "ifelse"
      · exact .inr (.inl hif)
      · exact .inr (.inr ((compileNode_leaf_iff hkind hseq hif).mp h))
  | _ => simp [compileNode] at h

/-! ### Trees -/

theorem inRange_of_holds (hrange : Value.MembersInRange node)
    {field : String} {value : Value} (h : Holds node field value) : value.InRange :=
  Value.inRange_of_find? hrange h.1

private theorem denotes_of_compileLeaf (hrange : Value.MembersInRange node)
    {kind : String} (hkind : OfKind node kind) {command : Command}
    (h : compileLeaf kind node = .ok command) : Denotes (.object node) command := by
  unfold compileLeaf at h
  split at h
  · obtain ⟨url, name, hurl, hname, rfl⟩ := compileNavigate_eq_ok_iff.mp h
    exact .navigate hkind hurl hname
  · obtain ⟨selector, timeout, delay, next, idle, after, hselector, htimeout, hdelay, hnext, hidle,
      hafter, rfl⟩ := (compileClick_eq_ok_iff hrange).mp h
    exact .click hkind hselector htimeout hdelay hnext hidle hafter
  · obtain ⟨selector, settle, hselector, hsettle, rfl⟩ := (compileExists_eq_ok_iff hrange).mp h
    exact .elementExists hkind hselector hsettle
  · obtain ⟨id, hid, rfl⟩ := compileFillForm_eq_ok_iff.mp h
    exact .fillForm hkind hid
  · obtain ⟨success, given, message, hsuccess, hgiven, htells, rfl⟩ := compileExit_eq_ok_iff.mp h
    exact .exit hkind hsuccess hgiven htells
  · rcases compileScreenshot_eq_ok_iff.mp h with ⟨hlacks, rfl⟩ | ⟨path, hpath, rfl⟩
    · exact .defaultPath hkind hlacks
    · exact .screenshot hkind hpath
  · cases h

mutual

theorem denotes_of_compileNode {path : NodePath} {value : Value} (hrange : value.InRange)
    {command : Command} (h : compileNode path value = .ok command) : Denotes value command := by
  obtain ⟨node, kind, hvalue, hkind, hcases⟩ := kind_of_compileNode h
  -- the value stays a variable, which the recursion is on, until its size is known
  have hsize : sizeOf node < sizeOf value := by
    rw [hvalue, Value.object.sizeOf_spec]
    omega
  rw [hvalue] at h hrange ⊢
  rcases hcases with rfl | rfl | hleaf
  · rcases (compileNode_sequence_iff hkind).mp h with
      ⟨hlacks, rfl⟩ | ⟨items, children, hitems, hchildren, rfl⟩
    · exact .noCommands hkind hlacks
    · have hlt : sizeOf items < sizeOf node := by
        have harray := Dict.sizeOf_lt_of_find? hitems
        rw [Value.array.sizeOf_spec] at harray
        omega
      have hitemsRange : Value.AllInRange items := Value.inRange_of_find? hrange hitems
      exact .sequence hkind hitems (denoteAll_of_compileNodes hitemsRange hchildren)
  · obtain ⟨c, condition, t, whenTrue, hc, hcondition, ht, hwhenTrue, helse⟩ :=
      (compileNode_ifElse_iff hkind).mp h
    have hltc := Dict.sizeOf_lt_of_find? hc.1
    have hltt := Dict.sizeOf_lt_of_find? ht.1
    have hdc := denotes_of_compileNode (inRange_of_holds hrange hc) hcondition
    have hdt := denotes_of_compileNode (inRange_of_holds hrange ht) hwhenTrue
    rcases helse with ⟨hlacks, rfl⟩ | ⟨e, whenFalse, he, hwhenFalse, rfl⟩
    · exact .withoutElse hkind hc ht hlacks hdc hdt
    · have hlte := Dict.sizeOf_lt_of_find? he.1
      have hde := denotes_of_compileNode (inRange_of_holds hrange he) hwhenFalse
      exact .withElse hkind hc ht he hdc hdt hde
  · exact denotes_of_compileLeaf hrange hkind hleaf
termination_by sizeOf value
decreasing_by all_goals omega

theorem denoteAll_of_compileNodes {path : NodePath} {index : Nat} {values : List Value}
    (hrange : Value.AllInRange values) {commands : List Command}
    (h : compileNodes path index values = .ok commands) : DenoteAll values commands := by
  cases values with
  | nil =>
    rw [compileNodes] at h
    obtain rfl := Except.ok.inj h
    exact .nil
  | cons value rest =>
    rw [compileNodes] at h
    simp only [bind_eq_ok_iff, pure_eq_ok_iff] at h
    obtain ⟨child, hchild, children, hchildren, rfl⟩ := h
    have hvalue := denotes_of_compileNode hrange.1 hchild
    have hvalues := denoteAll_of_compileNodes hrange.2 hchildren
    exact .cons hvalue hvalues
termination_by sizeOf values

end

private theorem compileNode_of_leaf {kind : String}
    (hkind : OfKind node kind) {command : Command} (hleaf : compileLeaf kind node = .ok command)
    (hseq : kind ≠ "sequence" := by decide) (hif : kind ≠ "ifelse" := by decide) :
    compileNode path (.object node) = .ok command :=
  (compileNode_leaf_iff hkind hseq hif).mpr hleaf

mutual

theorem compileNode_of_denotes {value : Value} {command : Command} (h : Denotes value command)
    (hrange : value.InRange) (path : NodePath) : compileNode path value = .ok command := by
  cases h with
  | noCommands hkind hlacks =>
    exact (compileNode_sequence_iff hkind).mpr (.inl ⟨hlacks, rfl⟩)
  | sequence hkind hitems hchildren =>
    have hitemsRange := Value.inRange_of_find? hrange hitems
    have hcompiled := compileNodes_of_denoteAll hchildren hitemsRange path 0
    exact (compileNode_sequence_iff hkind).mpr (.inr ⟨_, _, hitems, hcompiled, rfl⟩)
  | withoutElse hkind hc ht hlacks hdc hdt =>
    have hcondition := compileNode_of_denotes hdc (inRange_of_holds hrange hc)
      (path ++ [.condition])
    have hwhenTrue := compileNode_of_denotes hdt (inRange_of_holds hrange ht)
      (path ++ [.whenTrue])
    rw [compileNode_ifElse_iff hkind]
    exact ⟨_, _, _, _, hc, hcondition, ht, hwhenTrue, .inl ⟨hlacks, rfl⟩⟩
  | withElse hkind hc ht he hdc hdt hde =>
    have hcondition := compileNode_of_denotes hdc (inRange_of_holds hrange hc)
      (path ++ [.condition])
    have hwhenTrue := compileNode_of_denotes hdt (inRange_of_holds hrange ht)
      (path ++ [.whenTrue])
    have hwhenFalse := compileNode_of_denotes hde (inRange_of_holds hrange he)
      (path ++ [.whenFalse])
    rw [compileNode_ifElse_iff hkind]
    exact ⟨_, _, _, _, hc, hcondition, ht, hwhenTrue, .inr ⟨_, _, he, hwhenFalse, rfl⟩⟩
  | navigate hkind hurl hname =>
    apply compileNode_of_leaf hkind
    exact compileNavigate_eq_ok_iff.mpr ⟨_, _, hurl, hname, rfl⟩
  | click hkind hselector htimeout hdelay hnext hidle hafter =>
    apply compileNode_of_leaf hkind
    exact (compileClick_eq_ok_iff hrange).mpr
      ⟨_, _, _, _, _, _, hselector, htimeout, hdelay, hnext, hidle, hafter, rfl⟩
  | elementExists hkind hselector hsettle =>
    apply compileNode_of_leaf hkind
    exact (compileExists_eq_ok_iff hrange).mpr ⟨_, _, hselector, hsettle, rfl⟩
  | fillForm hkind hid =>
    apply compileNode_of_leaf hkind
    exact compileFillForm_eq_ok_iff.mpr ⟨_, hid, rfl⟩
  | exit hkind hsuccess hgiven htells =>
    apply compileNode_of_leaf hkind
    exact compileExit_eq_ok_iff.mpr ⟨_, _, _, hsuccess, hgiven, htells, rfl⟩
  | defaultPath hkind hlacks =>
    apply compileNode_of_leaf hkind
    exact compileScreenshot_eq_ok_iff.mpr (.inl ⟨hlacks, rfl⟩)
  | screenshot hkind hpath =>
    apply compileNode_of_leaf hkind
    exact compileScreenshot_eq_ok_iff.mpr (.inr ⟨_, hpath, rfl⟩)

theorem compileNodes_of_denoteAll {values : List Value} {commands : List Command}
    (h : DenoteAll values commands) (hrange : Value.AllInRange values) (path : NodePath)
    (index : Nat) : compileNodes path index values = .ok commands := by
  cases h with
  | nil => rw [compileNodes]
  | cons hvalue hvalues =>
    rw [compileNodes]
    have hchild := compileNode_of_denotes hvalue hrange.1 (path ++ [.command index])
    have hchildren := compileNodes_of_denoteAll hvalues hrange.2 path (index + 1)
    simp only [bind_eq_ok_iff, pure_eq_ok_iff]
    exact ⟨_, hchild, _, hchildren, rfl⟩

end

theorem compileNode_eq_ok_iff {path : NodePath} {value : Value} (hrange : value.InRange)
    {command : Command} : compileNode path value = .ok command ↔ Denotes value command :=
  ⟨denotes_of_compileNode hrange, fun h => compileNode_of_denotes h hrange path⟩

theorem compile_eq_ok_iff {text : String} {tree : Command} :
    compile text = .ok tree ↔ ∃ root, Json.parse text = .ok root ∧ Denotes root tree := by
  unfold compile
  constructor
  · intro h
    split at h
    · next root hparse => exact ⟨root, hparse, (compileNode_eq_ok_iff (inRange_parse hparse)).mp h⟩
    · cases h
  · intro h
    obtain ⟨root, hparse, hdenotes⟩ := h
    rw [hparse]
    exact (compileNode_eq_ok_iff (inRange_parse hparse)).mpr hdenotes

end Jobflow.Workflow
