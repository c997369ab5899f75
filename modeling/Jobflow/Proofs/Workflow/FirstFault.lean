import Jobflow.Proofs.Json.Printing
import Jobflow.Proofs.Workflow.Acceptance

/-!
Where a document is rejected. What is wrong with a node does not depend on where it stands, and the
compiler reports the first node in the order of the document that is at fault: the path that it
reports leads there, and everything before it that does not contain it is a workflow of its own.
-/

namespace Jobflow.Workflow

open Jobflow.Json

variable {node : Node} {path rest : NodePath} {error : CompileError}

/-! ### Steps -/

theorem Below.unique {step : Step} {child other : Value} (h : Below node step child)
    (h' : Below node step other) : child = other := by
  cases h with
  | command _ hitems hchild =>
    cases h' with
    | command _ hitems' hother =>
      cases hitems.symm.trans hitems'
      exact Option.some.inj (hchild.symm.trans hother)
  | condition _ hchild =>
    cases h' with
    | condition _ hother => exact hchild.unique hother
  | whenTrue _ hchild =>
    cases h' with
    | whenTrue _ hother => exact hchild.unique hother
  | whenFalse _ hchild =>
    cases h' with
    | whenFalse _ hother => exact hchild.unique hother

theorem Reaches.unique {root value other : Value} (h : Reaches root path value)
    (h' : Reaches root path other) : value = other := by
  induction h with
  | here value =>
    cases h' with
    | here => rfl
  | under hbelow _ ih =>
    cases h' with
    | under hbelow' hother => exact ih (hbelow'.unique hbelow ▸ hother)

/-- What is inherited along the steps of a document holds of every value. -/
theorem below_induction {motive : Value → Prop}
    (h : ∀ value, (∀ node step child, value = .object node → Below node step child →
      motive child) → motive value) (value : Value) : motive value := by
  apply h
  intro node step child hvalue hbelow
  have hlt := hbelow.sizeOf_lt
  have hsize : sizeOf node < sizeOf value := by
    rw [hvalue, Value.object.sizeOf_spec]
    omega
  exact below_induction h child
termination_by sizeOf value

theorem inRange_of_below (hrange : Value.MembersInRange node) {step : Step} {child : Value}
    (h : Below node step child) : child.InRange := by
  cases h with
  | command _ hitems hchild =>
    exact Value.inRange_of_mem (Value.inRange_of_find? hrange hitems) (List.mem_of_getElem? hchild)
  | condition _ hchild => exact inRange_of_holds hrange hchild
  | whenTrue _ hchild => exact inRange_of_holds hrange hchild
  | whenFalse _ hchild => exact inRange_of_holds hrange hchild

/-! ### Where a node stands -/

/-- The error of a node as it is seen from further up: its path starts with the way there. -/
def CompileError.under (path : NodePath) : CompileError → CompileError
  | .notJson cause => .notJson cause
  | .atNode rest fault => .atNode (path ++ rest) fault

theorem located_append {α : Type} (path rest : NodePath) (x : Except NodeFault α) :
    located (path ++ rest) x = (located rest x).mapError (.under path) := by
  cases x with
  | ok a => rfl
  | error fault => rfl

/-- The same trees are found at `rest` wherever the node stands, and the same faults. -/
def StandsAnywhere (value : Value) : Prop :=
  ∀ path rest, compileNode (path ++ rest) value = (compileNode rest value).mapError (.under path)

theorem compileNodes_append {values : List Value} (h : ∀ value ∈ values, StandsAnywhere value)
    (path rest : NodePath) (index : Nat) :
    compileNodes (path ++ rest) index values =
      (compileNodes rest index values).mapError (.under path) := by
  induction values generalizing index with
  | nil =>
    rw [compileNodes, compileNodes]
    rfl
  | cons value values ih =>
    obtain ⟨hvalue, hvalues⟩ := List.forall_mem_cons.mp h
    rw [compileNodes, compileNodes, List.append_assoc, hvalue, ih hvalues, mapError_bind]
    simp only [mapError_bind]
    rfl

section
variable (h : ∀ step child, Below node step child → StandsAnywhere child)
include h

theorem compileCommands_append (hkind : OfKind node "sequence") (path rest : NodePath) :
    compileCommands (path ++ rest) node = (compileCommands rest node).mapError (.under path) := by
  unfold compileCommands
  split
  · rfl
  · next items hitems =>
    refine compileNodes_append (fun value hvalue => ?_) path rest 0
    obtain ⟨index, hindex⟩ := List.mem_iff_getElem?.mp hvalue
    exact h _ _ (.command hkind (find?_of_present? hitems) hindex)
  · rfl

theorem compileField_append {step : Step} {field : String} {missing : NodeFault}
    (hstep : ∀ value, Holds node field value → Below node step value) (path rest : NodePath) :
    compileField (path ++ rest) node step field missing =
      (compileField rest node step field missing).mapError (.under path) := by
  unfold compileField
  split
  · rfl
  · next value hvalue =>
    rw [List.append_assoc]
    exact h _ _ (hstep value (present?_eq_some_iff.mp hvalue)) _ _

theorem compileElse_append (hkind : OfKind node "ifelse") (path rest : NodePath) :
    compileElse (path ++ rest) node = (compileElse rest node).mapError (.under path) := by
  unfold compileElse
  split
  · rfl
  · next value hvalue =>
    rw [List.append_assoc, h _ _ (.whenFalse hkind (present?_eq_some_iff.mp hvalue)), mapError_bind]
    rfl

theorem standsAnywhere_object : StandsAnywhere (.object node) := by
  intro path rest
  rcases kind_or_located node with hkind | hkind | ⟨own, hown⟩
  · rw [compileNode_sequence hkind, compileNode_sequence hkind, compileCommands_append h hkind,
      mapError_bind]
    rfl
  · rw [compileNode_ifElse hkind, compileNode_ifElse hkind,
      compileField_append h fun _ => Below.condition hkind,
      compileField_append h fun _ => Below.whenTrue hkind, compileElse_append h hkind]
    simp only [mapError_bind]
    rfl
  · rw [hown, hown, located_append]

end

/-- Where a node stands shows in the paths of its faults alone. -/
theorem compileNode_append (path rest : NodePath) (value : Value) :
    compileNode (path ++ rest) value = (compileNode rest value).mapError (.under path) := by
  have hall : StandsAnywhere value := by
    induction value using below_induction with
    | h value ih =>
      cases value with
      | object node => exact standsAnywhere_object fun step child => ih node step child rfl
      | _ =>
        intro path rest
        simp [compileNode, CompileError.under]
  exact hall path rest

/-! ### The first fault of a node -/

/-- The value is a workflow of its own. -/
def Compiles (value : Value) : Prop := ∃ tree, compileNode [] value = .ok tree

theorem compiles_of_compileNode {value : Value} {tree : Command}
    (h : compileNode path value = .ok tree) : Compiles value := by
  rw [← List.append_nil path, compileNode_append, mapError_eq_ok_iff] at h
  exact ⟨tree, h⟩

theorem exists_under_of_compileNode {value : Value} (h : compileNode path value = .error error) :
    ∃ cause, compileNode [] value = .error cause ∧ cause.under path = error := by
  rwa [← List.append_nil path, compileNode_append, mapError_eq_error_iff] at h

/-- The order of the steps from one node. -/
inductive Step.Before : Step → Step → Prop
  | command {index later : Nat} : index < later → Before (.command index) (.command later)
  | conditionThen : Before .condition .whenTrue
  | conditionElse : Before .condition .whenFalse
  | thenElse : Before .whenTrue .whenFalse

/-- What the compiler reports about a node is a fault of the node itself, or that of a node one
step below it before which there are workflows alone. -/
inductive StopsAt (node : Node) (error : CompileError) : Prop
  | here (fault : NodeFault) : error = .atNode [] fault → StopsAt node error
  | below {step : Step} {child : Value} {cause : CompileError} : Below node step child →
      compileNode [] child = .error cause → cause.under [step] = error →
      (∀ earlier other, Below node earlier other → earlier.Before step → Compiles other) →
      StopsAt node error

theorem stopsAt_of_child {step : Step} {child : Value} (hbelow : Below node step child)
    (h : compileNode [step] child = .error error)
    (hearlier : ∀ earlier other, Below node earlier other → earlier.Before step → Compiles other) :
    StopsAt node error := by
  obtain ⟨cause, hcause, hunder⟩ := exists_under_of_compileNode h
  exact .below hbelow hcause hunder hearlier

theorem exists_of_compileNodes {index : Nat} {items : List Value}
    (h : compileNodes path index items = .error error) :
    ∃ before child after, items = before ++ child :: after ∧
      compileNode (path ++ [.command (index + before.length)]) child = .error error ∧
      ∀ other ∈ before, Compiles other := by
  induction items generalizing index with
  | nil =>
    rw [compileNodes] at h
    cases h
  | cons item items ih =>
    rw [compileNodes, bind_eq_error_iff] at h
    rcases h with hitem | ⟨tree, htree, h⟩
    · exact ⟨[], item, items, rfl, hitem, by simp⟩
    rw [bind_eq_error_iff] at h
    rcases h with hitems | ⟨_, _, hpure⟩
    · obtain ⟨before, child, after, hsplit, hchild, hbefore⟩ := ih hitems
      refine ⟨item :: before, child, after, by rw [hsplit, List.cons_append], ?_, ?_⟩
      · rwa [List.length_cons, Nat.add_comm before.length 1, ← Nat.add_assoc]
      · exact List.forall_mem_cons.mpr ⟨compiles_of_compileNode htree, hbefore⟩
    · cases hpure

theorem stopsAt_of_sequence (hkind : OfKind node "sequence")
    (h : compileCommands [] node = .error error) : StopsAt node error := by
  unfold compileCommands at h
  split at h
  · cases h
  · next items hpresent =>
    have hitems := find?_of_present? hpresent
    obtain ⟨before, child, after, hsplit, hchild, hbefore⟩ := exists_of_compileNodes h
    rw [Nat.zero_add] at hchild
    refine stopsAt_of_child (.command hkind hitems (by simp [hsplit])) hchild ?_
    intro earlier other hbelow horder
    cases horder with
    | command hlt =>
      obtain ⟨items', index, hitems', hindex, hother⟩ := (below_sequence_iff hkind).mp hbelow
      cases hitems.symm.trans hitems'
      cases hindex
      rw [hsplit, List.getElem?_append_left hlt] at hother
      exact hbefore other (List.mem_of_getElem? hother)
  · cases h
    exact .here _ rfl

theorem error_of_compileField {step : Step} {field : String} {missing : NodeFault}
    (h : compileField path node step field missing = .error error) :
    error = .atNode path missing ∨
      ∃ child, Holds node field child ∧ compileNode (path ++ [step]) child = .error error := by
  unfold compileField at h
  split at h
  · exact .inl (Except.error.inj h).symm
  · next child hchild => exact .inr ⟨child, present?_eq_some_iff.mp hchild, h⟩

theorem error_of_compileElse (h : compileElse path node = .error error) :
    ∃ child, Holds node "else" child ∧ compileNode (path ++ [.whenFalse]) child = .error error := by
  unfold compileElse at h
  split at h
  · cases h
  · next child hchild =>
    rcases bind_eq_error_iff.mp h with h | ⟨_, _, hpure⟩
    · exact ⟨child, present?_eq_some_iff.mp hchild, h⟩
    · cases hpure

theorem stopsAt_of_ifElse (hkind : OfKind node "ifelse")
    (h : compileNode [] (.object node) = .error error) : StopsAt node error := by
  rw [compileNode_ifElse hkind, bind_eq_error_iff] at h
  rcases h with h | ⟨condition, hcondition, h⟩
  · rcases error_of_compileField h with hmissing | ⟨c, hc, h⟩
    · exact .here _ hmissing
    · exact stopsAt_of_child (.condition hkind hc) h nofun
  obtain ⟨c, hc, hcondition⟩ := compileField_eq_ok_iff.mp hcondition
  -- from here on the condition is a workflow
  have hbefore (other : Value) (hbelow : Below node .condition other) : Compiles other := by
    rw [hbelow.unique (.condition hkind hc)]
    exact compiles_of_compileNode hcondition
  rw [bind_eq_error_iff] at h
  rcases h with h | ⟨whenTrue, hwhenTrue, h⟩
  · rcases error_of_compileField h with hmissing | ⟨t, ht, h⟩
    · exact .here _ hmissing
    · refine stopsAt_of_child (.whenTrue hkind ht) h fun earlier other hbelow horder => ?_
      cases horder with
      | conditionThen => exact hbefore other hbelow
  obtain ⟨t, ht, hwhenTrue⟩ := compileField_eq_ok_iff.mp hwhenTrue
  rw [bind_eq_error_iff] at h
  rcases h with h | ⟨_, _, hpure⟩
  · obtain ⟨e, he, h⟩ := error_of_compileElse h
    refine stopsAt_of_child (.whenFalse hkind he) h fun earlier other hbelow horder => ?_
    cases horder with
    | conditionElse => exact hbefore other hbelow
    | thenElse =>
      rw [hbelow.unique (.whenTrue hkind ht)]
      exact compiles_of_compileNode hwhenTrue
  · cases hpure

theorem stopsAt_of_compileNode (h : compileNode [] (.object node) = .error error) :
    StopsAt node error := by
  rcases kind_or_located node with hkind | hkind | ⟨own, hown⟩
  · rw [compileNode_sequence hkind, bind_eq_error_iff] at h
    rcases h with h | ⟨_, _, hpure⟩
    · exact stopsAt_of_sequence hkind h
    · cases hpure
  · exact stopsAt_of_ifElse hkind h
  · rw [hown] at h
    cases own with
    | ok command => cases h
    | error fault => exact .here fault (Except.error.inj h).symm

/-! ### The first fault of a document -/

/-- The order of the document: a node stands before the nodes below it, and these stand one after
another, each with all that is below it. -/
def Precedes : NodePath → NodePath → Prop := List.Lex Step.Before

/-- The path leads from the root to a value that is at fault itself, compiled on its own, and every
node before it that does not contain it is a workflow of its own. -/
structure FirstFault (root : Value) (path : NodePath) (fault : NodeFault) : Prop where
  offender : ∃ value, Reaches root path value ∧ compileNode [] value = .error (.atNode [] fault)
  before : ∀ other value, Reaches root other value → Precedes other path → ¬ other <+: path →
    Compiles value

theorem firstFault_here {root : Value} {fault : NodeFault}
    (h : compileNode [] root = .error (.atNode [] fault)) : FirstFault root [] fault where
  offender := ⟨root, .here root, h⟩
  before _ _ _ hprecedes := nomatch hprecedes

theorem Compiles.of_below (hrange : Value.MembersInRange node) (h : Compiles (.object node))
    {step : Step} {child : Value} (hbelow : Below node step child) : Compiles child := by
  obtain ⟨tree, htree⟩ := h
  have hroot : Value.InRange (.object node) := hrange
  obtain ⟨sub, hsub⟩ := (denotes_of_compileNode hroot htree).of_below hbelow
  exact ⟨sub, compileNode_of_denotes hsub (inRange_of_below hrange hbelow) []⟩

/-- All that a workflow leads to are workflows of their own. -/
theorem Compiles.of_reaches {root value : Value} (hreaches : Reaches root path value)
    (hrange : root.InRange) (h : Compiles root) : Compiles value := by
  induction hreaches with
  | here value => exact h
  | under hbelow _ ih => exact ih (inRange_of_below hrange hbelow) (h.of_below hrange hbelow)

/-- The first fault below a step before which there are workflows alone. -/
theorem FirstFault.under (hrange : Value.MembersInRange node) {step : Step} {child : Value}
    {fault : NodeFault} (hbelow : Below node step child)
    (hearlier : ∀ earlier other, Below node earlier other → earlier.Before step → Compiles other)
    (h : FirstFault child path fault) : FirstFault (.object node) (step :: path) fault where
  offender := by
    obtain ⟨value, hreaches, hfault⟩ := h.offender
    exact ⟨value, .under hbelow hreaches, hfault⟩
  before other value hreaches hprecedes hcontains := by
    cases hreaches with
    | here => exact absurd List.nil_prefix hcontains
    | under hother hreaches =>
      cases hprecedes with
      | rel horder =>
        exact .of_reaches hreaches (inRange_of_below hrange hother) (hearlier _ _ hother horder)
      | cons hprecedes =>
        rw [hother.unique hbelow] at hreaches
        refine h.before _ _ hreaches hprecedes fun hprefix => hcontains ?_
        exact List.cons_prefix_cons.mpr ⟨rfl, hprefix⟩

theorem exists_firstFault (root : Value) (hrange : root.InRange)
    (h : compileNode [] root = .error error) :
    ∃ path fault, error = .atNode path fault ∧ FirstFault root path fault := by
  induction root using below_induction generalizing error with
  | h root ih =>
    cases root with
    | object node =>
      cases stopsAt_of_compileNode h with
      | here fault herror => exact ⟨[], fault, herror, firstFault_here (herror ▸ h)⟩
      | below hbelow hchild hunder hearlier =>
        obtain ⟨path, fault, rfl, hfirst⟩ :=
          ih _ _ _ rfl hbelow (inRange_of_below hrange hbelow) hchild
        exact ⟨_, fault, hunder.symm, hfirst.under hrange hbelow hearlier⟩
    | _ =>
      rw [compileNode] at h
      · obtain rfl := Except.error.inj h
        exact ⟨[], _, rfl, firstFault_here (by simp [compileNode])⟩
      · simp

theorem compile_of_parse {text : String} {root : Value} (h : Json.parse text = .ok root) :
    compile text = compileNode [] root := by
  rw [compile, h]

/-- The error of a rejected document names the first node that is at fault. It is the path from
the root, `$`, to a value of the document, and the reason; any text that writes this value alone
is rejected for the same reason at its root; and every node that stands before it in the order of
the document and does not contain it is a workflow of its own. -/
theorem compile_reports_first_fault {text : String} {root : Value} {error : CompileError}
    (hparse : Json.parse text = .ok root) (h : compile text = .error error) :
    ∃ path fault, error = .atNode path fault ∧
      error.message = "$" ++ String.join (path.map Step.text) ++ ": " ++ fault.message ∧
      FirstFault root path fault ∧
      ∀ value part, Reaches root path value → Json.parse part = .ok value →
        compile part = .error (.atNode [] fault) := by
  rw [compile_of_parse hparse] at h
  obtain ⟨path, fault, rfl, hfirst⟩ := exists_firstFault root (Json.inRange_parse hparse) h
  refine ⟨path, fault, rfl, rfl, hfirst, ?_⟩
  intro value part hreaches hpart
  obtain ⟨offender, hoffender, hfault⟩ := hfirst.offender
  rw [compile_of_parse hpart, hreaches.unique hoffender, hfault]

example : (CompileError.atNode [.command 1, .whenTrue] .typeMissing).message =
    "$.commands[1].then: node is missing 'type'" := by
  decide

/-- A sequence of an exit and of something that is no node. -/
def halting : Value :=
  .object [("commands", .array [.object [("success", .bool true), ("type", .string "exit")],
    .bool false]), ("type", .string "sequence")]

theorem compile_reports_first_fault_halting :
    compile halting.pretty = .error (.atNode [.command 1] .notAnObject) ∧
      FirstFault halting [.command 1] .notAnObject := by
  have hreads : halting.ReadsAs id := by
    simp [halting, Value.ReadsAs, Value.AllReadAs, Value.MembersReadAs]
  have hparse : Json.parse halting.pretty = .ok halting := by
    rw [Json.parse, Json.parseAs_pretty hreads, Value.mapNumbers_id]
    rfl
  have hkind : OfKind [("success", .bool true), ("type", .string "exit")] "exit" :=
    ⟨"exit", rfl, by decide⟩
  have hexit : compileNode [.command 0]
      (.object [("success", .bool true), ("type", .string "exit")]) = .ok (.exit true none) :=
    (compileNode_leaf_iff hkind (by decide) (by decide)).mpr rfl
  have hcompile : compile halting.pretty = .error (.atNode [.command 1] .notAnObject) := by
    rw [compile_of_parse hparse, halting, compileNode_sequence ⟨"sequence", rfl, by decide⟩]
    simp [compileCommands, present?, Dict.find?, compileNodes, hexit, ok_bind, error_bind,
      compileNode]
  obtain ⟨path, fault, herror, -, hfirst, -⟩ := compile_reports_first_fault hparse hcompile
  cases herror
  exact ⟨hcompile, hfirst⟩

end Jobflow.Workflow
