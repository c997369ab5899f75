import Jobflow.Proofs.Text.Pieces
import Jobflow.Proofs.Workflow.Positions

/-!
The outline of a tree. If no text of the tree is broken into lines, there is one line for each node,
in the order of the document, indented by the depth of the node. The tree can be read back from the
indentations and the kinds: two trees with one outline have the same shape.
-/

namespace Jobflow.Workflow

open Jobflow.Time (Duration)
open List (Forall₂)
open Text (lines lines_join splitBy splitBy_append_cons)

/-! ### Lines -/

/-- What the line of a node says about the step to it. -/
def Step.role : Step → String
  | .command _ => ""
  | .condition => "if: "
  | .whenTrue => "then: "
  | .whenFalse => "else: "

/-- What the line of the node at a path says about the last step to it. -/
def roleAt (path : NodePath) : String := (path.getLast?.map Step.role).getD ""

@[simp] theorem roleAt_concat (path : NodePath) (step : Step) :
    roleAt (path ++ [step]) = step.role := by
  simp [roleAt]

/-- The number of blanks at the start of a line. -/
def indentation (line : String) : Nat := (line.toList.takeWhile (· == ' ')).length

namespace Command

variable {command other : Command} {depth : Nat} {role : String} {path : NodePath}

/-- The line of a node at a path. -/
def lineAt (path : NodePath) (node : Command) : OutlineLine :=
  ⟨path.length, roleAt path, node.kind, node.detail⟩

/-- The texts of a node itself. -/
def texts : Command → List String
  | .sequence _ | .ifElse .. => []
  | .navigate url _ => [url]
  | .click selector _ (.selector next) => [selector, next]
  | .click selector _ _ => [selector]
  | .elementExists selector _ => [selector]
  | .fillForm formId => [formId]
  | .exit _ message => message.toList
  | .screenshot pathTemplate => [pathTemplate]

/-- No text of a node of the tree contains the end of a line, which is a line feed. -/
def Unbroken (command : Command) : Prop :=
  ∀ path node, command.at? path = some node → ∀ text ∈ node.texts, '\n' ∉ text.toList

instance (command : Command) : Decidable command.Unbroken :=
  decidable_of_iff (∀ path ∈ command.nodePaths, ∀ node ∈ command.at? path, ∀ text ∈ node.texts,
      '\n' ∉ text.toList)
    ⟨fun h path node hnode => h path (mem_nodePaths_iff.mpr ⟨node, hnode⟩) node hnode,
      fun h path _ node hnode => h path node hnode⟩

/-! ### One line for each node -/

theorem outlineChildren_eq (depth index : Nat) (children : List Command) :
    outlineChildren depth children =
      (children.zipIdx index).flatMap fun child => outlineLines depth "" child.1 := by
  induction children generalizing index with
  | nil => rfl
  | cons child rest ih =>
    rw [outlineChildren, ih (index + 1), List.zipIdx_cons, List.flatMap_cons]

/-- The line of the root, and then the lines of one branch after another. -/
theorem outlineLines_eq (depth : Nat) (role : String) (command : Command) :
    outlineLines depth role command = ⟨depth, role, command.kind, command.detail⟩ ::
      command.branches.flatMap fun branch => outlineLines (depth + 1) branch.1.role branch.2 := by
  cases command with
  | sequence children =>
    rw [outlineLines, outlineChildren_eq (depth + 1) 0, branches, List.flatMap_map]
    rfl
  | ifElse condition whenTrue whenFalse =>
    cases whenFalse <;> simp [outlineLines, branches, kind, detail, Step.role]
  | _ => simp [outlineLines, branches]

/-- The lines of a tree that stands at a path are those of its nodes, in their order. -/
theorem forall₂_outlineLines (command : Command) (above : NodePath) :
    Forall₂
      (fun path line => ∃ node, command.at? path = some node ∧ line = lineAt (above ++ path) node)
      command.nodePaths (outlineLines above.length (roleAt above) command) := by
  induction command using branches_induction generalizing above with
  | h command ih =>
    rw [nodePaths_eq, outlineLines_eq]
    refine .cons ⟨command, rfl, by rw [List.append_nil, lineAt]⟩ ?_
    refine List.rel_flatMap (List.forall₂_same.mpr fun branch hbranch => ?_) fun _ _ h => h
    -- one step further down the path is longer by one, as the lines are deeper by one
    have hchild := ih branch hbranch (above ++ [branch.1])
    rw [List.length_append, List.length_singleton, roleAt_concat] at hchild
    rw [List.forall₂_map_left_iff]
    refine hchild.imp fun path line ⟨node, hnode, hline⟩ => ⟨node, ?_, ?_⟩
    · exact at?_cons_eq_some_iff.mpr ⟨branch.2, mem_branches_iff.mp hbranch, hnode⟩
    · rw [hline, List.append_assoc, List.singleton_append]

/-- Every line is that of a node. -/
theorem exists_of_mem_outlineLines {line : OutlineLine} (h : line ∈ outlineLines 0 "" command) :
    ∃ path node, command.at? path = some node ∧ line = lineAt path node := by
  have hlines : Forall₂ (fun line path => (∃ path node, command.at? path = some node ∧
      line = lineAt path node) ∧ True) (outlineLines 0 "" command) command.nodePaths :=
    (forall₂_outlineLines command []).flip.imp fun _ path hnode => ⟨⟨path, hnode⟩, trivial⟩
  exact ((List.forall₂_and_left _ _).mp hlines).1 line h

/-! ### The text of a line -/

theorem roleAt_cases (path : NodePath) : roleAt path = "" ∨ roleAt path = "if: " ∨
    roleAt path = "then: " ∨ roleAt path = "else: " := by
  rw [roleAt]
  cases path.getLast? with
  | none => simp
  | some step => cases step <;> simp [Step.role]

theorem not_break_mem_role (path : NodePath) : '\n' ∉ (roleAt path).toList := by
  rcases roleAt_cases path with h | h | h | h <;> simp [h]

theorem not_break_mem_kind (command : Command) : '\n' ∉ command.kind.toList := by
  cases command <;> simp [kind]

theorem not_break_mem_toDigits (n : Nat) : '\n' ∉ Nat.toDigits 10 n := fun h =>
  absurd (Nat.isDigit_of_mem_toDigits (by decide) (by decide) h) (by decide)

theorem not_break_mem_toString (b : Bool) : '\n' ∉ (toString b).toList := by
  cases b <;> decide

theorem not_break_mem_detail (h : ∀ text ∈ command.texts, '\n' ∉ text.toList) :
    '\n' ∉ command.detail.toList := by
  cases command with
  | sequence children => simp [detail, not_break_mem_toDigits]
  | ifElse condition whenTrue whenFalse => cases whenFalse <;> simp [detail]
  | navigate url readiness => cases readiness <;> simp_all [detail, texts, Page.Readiness.name]
  | click selector timeout after =>
    cases after <;> simp_all [detail, texts, not_break_mem_toDigits]
  | exit success message => cases message <;> simp_all [detail, texts, not_break_mem_toString]
  | _ => simpa [texts, detail] using h

/-- What follows the indentation of a line. -/
def body (role : String) (command : Command) : List Char :=
  role.toList ++ (command.kind.toList ++ ' ' :: command.detail.toList)

theorem toList_text (path : NodePath) (node : Command) : (lineAt path node).text.toList =
    List.replicate (2 * path.length) ' ' ++ body (roleAt path) node := by
  simp [lineAt, OutlineLine.text, body]

theorem not_break_mem_text (h : ∀ text ∈ command.texts, '\n' ∉ text.toList) :
    '\n' ∉ (lineAt path command).text.toList := by
  simp [toList_text, body, not_break_mem_role, not_break_mem_kind, not_break_mem_detail h]

/-- The kind that a line names: its first word that does not tell a role. -/
def kindIn (body : List Char) : String :=
  String.ofList (((splitBy (· == ' ') body).find? fun word => word.getLast? != some ':').getD [])

/-- The depth and the kind that can be read in a line. -/
def readMark (line : String) : Nat × String :=
  (indentation line / 2, kindIn (line.toList.dropWhile (· == ' ')))

theorem kind_is_word (command : Command) :
    (∀ c ∈ command.kind.toList, (c == ' ') = false) ∧ command.kind.toList.getLast? ≠ some ':' := by
  cases command <;> simp [kind]

theorem splitBy_role (path : NodePath) (rest : List Char) :
    ∃ words, (∀ word ∈ words, word.getLast? = some ':') ∧
      splitBy (· == ' ') ((roleAt path).toList ++ rest) = words ++ splitBy (· == ' ') rest := by
  rcases roleAt_cases path with h | h | h | h <;> rw [h]
  · exact ⟨[], by simp, rfl⟩
  · exact ⟨["if:".toList], by simp, by simp [splitBy]⟩
  · exact ⟨["then:".toList], by simp, by simp [splitBy]⟩
  · exact ⟨["else:".toList], by simp, by simp [splitBy]⟩

theorem kindIn_body (path : NodePath) (node : Command) :
    kindIn (body (roleAt path) node) = node.kind := by
  obtain ⟨hword, hlast⟩ := kind_is_word node
  obtain ⟨words, hwords, hsplit⟩ :=
    splitBy_role path (node.kind.toList ++ ' ' :: node.detail.toList)
  have hroles : words.find? (fun word => word.getLast? != some ':') = none :=
    List.find?_eq_none.mpr fun word hmem => by simp [hwords word hmem]
  rw [kindIn, body, hsplit, List.find?_append, hroles, Option.none_or,
    splitBy_append_cons hword rfl, List.find?_cons_of_pos (by simpa using hlast),
    Option.getD_some, String.ofList_toList]

theorem takeWhile_body (path : NodePath) (node : Command) :
    (body (roleAt path) node).takeWhile (· == ' ') = [] := by
  rcases roleAt_cases path with h | h | h | h <;> rw [h]
  · cases node <;> simp [body, kind]
  all_goals simp [body]

theorem indentation_text (path : NodePath) (node : Command) :
    indentation (lineAt path node).text = 2 * path.length := by
  have hblanks : ∀ c ∈ List.replicate (2 * path.length) ' ', (c == ' ') = true := by simp
  rw [indentation, toList_text, List.takeWhile_append_of_pos hblanks, takeWhile_body,
    List.append_nil, List.length_replicate]

theorem readMark_text (path : NodePath) (node : Command) :
    readMark (lineAt path node).text = (path.length, node.kind) := by
  have hblanks : ∀ c ∈ List.replicate (2 * path.length) ' ', (c == ' ') = true := by simp
  have hbody : (body (roleAt path) node).dropWhile (· == ' ') = body (roleAt path) node := by
    have happend : (body (roleAt path) node).takeWhile (· == ' ') ++
        (body (roleAt path) node).dropWhile (· == ' ') = body (roleAt path) node :=
      List.takeWhile_append_dropWhile
    rwa [takeWhile_body, List.nil_append] at happend
  rw [readMark, indentation_text, toList_text, List.dropWhile_append_of_pos hblanks, hbody,
    kindIn_body, Nat.mul_div_cancel_left _ (by decide)]

theorem lines_outline (h : command.Unbroken) :
    lines command.outline = (outlineLines 0 "" command).map OutlineLine.text := by
  have hline : ∀ line ∈ (outlineLines 0 "" command).map OutlineLine.text, '\n' ∉ line.toList := by
    intro line hline
    obtain ⟨_, hmem, rfl⟩ := List.mem_map.mp hline
    obtain ⟨path, node, hnode, rfl⟩ := exists_of_mem_outlineLines hmem
    exact not_break_mem_text (h path node hnode)
  have hlines := lines_join hline
  rwa [List.map_map] at hlines

example : lines (Command.ifElse (.elementExists "#apply" none) (.exit true none) none).outline =
    ["ifelse without else", "  if: exists #apply", "  then: exit success=true"] := by
  decide

/-! ### Reading a tree back -/

/-- The depth and the kind of the node of a line. -/
def OutlineLine.mark (line : OutlineLine) : Nat × String := (line.depth, line.kind)

/-- The marks of a tree whose root stands at that depth. -/
def marks (depth : Nat) (command : Command) : List (Nat × String) :=
  (outlineLines depth "" command).map OutlineLine.mark

theorem map_readMark_lines (h : command.Unbroken) :
    (lines command.outline).map readMark = command.marks 0 := by
  rw [lines_outline h, List.map_map, marks]
  refine List.map_congr_left fun line hline => ?_
  obtain ⟨path, node, -, rfl⟩ := exists_of_mem_outlineLines hline
  exact readMark_text path node

theorem map_mark_outlineLines (depth : Nat) (role : String) (command : Command) :
    (outlineLines depth role command).map OutlineLine.mark = command.marks depth := by
  rw [marks, outlineLines_eq depth role, outlineLines_eq depth ""]
  rfl

/-- The marks of the branches of a node, one branch after another. -/
def branchMarks (depth : Nat) (branches : List (Step × Command)) : List (Nat × String) :=
  branches.flatMap fun branch => branch.2.marks depth

theorem marks_eq (depth : Nat) (command : Command) :
    command.marks depth = (depth, command.kind) :: branchMarks (depth + 1) command.branches := by
  rw [marks, outlineLines_eq, List.map_cons, List.map_flatMap]
  simp only [map_mark_outlineLines]
  rfl

/-- What follows, if anything, starts no deeper. -/
def StartsWithin (depth : Nat) (rest : List (Nat × String)) : Prop :=
  ∀ mark ∈ rest.head?, mark.1 ≤ depth

section
variable {rest rest' : List (Nat × String)}

theorem startsWithin_nil : StartsWithin depth [] := fun _ hmark => nomatch hmark

theorem not_startsWithin_branchMarks (branch : Step × Command) (later : List (Step × Command)) :
    ¬ StartsWithin depth (branchMarks (depth + 1) (branch :: later) ++ rest) := by
  intro h
  rw [branchMarks, List.flatMap_cons, marks_eq] at h
  exact absurd (h _ rfl) (Nat.not_succ_le_self depth)

theorem StartsWithin.branchMarks (h : StartsWithin depth rest) (branches : List (Step × Command)) :
    StartsWithin (depth + 1) (branchMarks (depth + 1) branches ++ rest) := by
  cases branches with
  | nil => exact fun mark hmark => Nat.le_succ_of_le (h mark hmark)
  | cons branch later =>
    rw [Command.branchMarks, List.flatMap_cons, marks_eq]
    intro mark hmark
    cases hmark
    exact Nat.le_refl _

/-- The marks of the tree tell its shape and where they end, whatever follows that is not deeper. -/
def ReadsBack (command : Command) : Prop :=
  ∀ ⦃depth other rest rest'⦄, StartsWithin depth rest → StartsWithin depth rest' →
    command.marks depth ++ rest = other.marks depth ++ rest' →
    command.SameShape other ∧ rest = rest'

theorem forall₂_of_branchMarks {branches branches' : List (Step × Command)}
    (hreads : ∀ branch ∈ branches, branch.2.ReadsBack)
    (hrest : StartsWithin depth rest) (hrest' : StartsWithin depth rest')
    (h : branchMarks (depth + 1) branches ++ rest = branchMarks (depth + 1) branches' ++ rest') :
    Forall₂ (fun branch branch' => branch.2.SameShape branch'.2) branches branches' ∧
      rest = rest' := by
  induction branches generalizing branches' with
  | nil =>
    cases branches' with
    | nil => exact ⟨.nil, h⟩
    | cons branch' later' =>
      -- a further branch starts deeper than the rest may
      obtain rfl : rest = _ := h
      exact absurd hrest (not_startsWithin_branchMarks branch' later')
  | cons branch later ih =>
    obtain ⟨hbranch, hlater⟩ := List.forall_mem_cons.mp hreads
    cases branches' with
    | nil =>
      obtain rfl : _ = rest' := h
      exact absurd hrest' (not_startsWithin_branchMarks branch later)
    | cons branch' later' =>
      rw [branchMarks, branchMarks, List.flatMap_cons, List.flatMap_cons, List.append_assoc,
        List.append_assoc] at h
      -- after the first branch comes its sister or the rest, and neither starts deeper than it
      obtain ⟨hsame, h⟩ := hbranch (hrest.branchMarks later) (hrest'.branchMarks later') h
      obtain ⟨hshapes, heq⟩ := ih hlater h
      exact ⟨.cons hsame hshapes, heq⟩

theorem readsBack (command : Command) : command.ReadsBack := by
  induction command using branches_induction with
  | h command ih =>
    intro depth other rest rest' hrest hrest' h
    rw [marks_eq, marks_eq, List.cons_append, List.cons_append] at h
    obtain ⟨hmark, h⟩ := List.cons.inj h
    obtain ⟨hshapes, heq⟩ := forall₂_of_branchMarks ih hrest hrest' h
    exact ⟨sameShape_of_branches (Prod.mk.inj hmark).2 hshapes, heq⟩

end

theorem sameShape_of_outline (h : command.Unbroken) (hother : other.Unbroken)
    (heq : command.outline = other.outline) : command.SameShape other := by
  have hmarks : command.marks 0 ++ [] = other.marks 0 ++ [] := by
    rw [← map_readMark_lines h, ← map_readMark_lines hother, heq]
  exact (command.readsBack startsWithin_nil startsWithin_nil hmarks).1

/-- The line shows the node and where it stands: it is indented by two blanks for each step of the
path, and then gives the role of the last step, the kind of the node and its detail. -/
structure IsLineOf (path : NodePath) (node : Command) (line : String) : Prop where
  indented : indentation line = 2 * path.length
  text : line = String.ofList (List.replicate (2 * path.length) ' ') ++ roleAt path ++ node.kind ++
    " " ++ node.detail

theorem isLineOf_text (path : NodePath) (node : Command) :
    IsLineOf path node (lineAt path node).text where
  indented := indentation_text path node
  text := rfl

end Command

/-- The outline shows the tree, if no text of the tree is broken into lines. It has as many lines as
the tree has nodes. With the paths to the nodes in the order of the document, the lines are those of
the nodes one by one, each indented by the depth of its node. And another such tree with the same
outline has nodes of the same kinds at the same paths. -/
theorem outline_shows_tree {command : Command} (h : command.Unbroken) :
    (lines command.outline).length = command.nodeCount ∧
    command.nodePaths.Pairwise Precedes ∧
    (∀ path, path ∈ command.nodePaths ↔ ∃ node, command.at? path = some node) ∧
    Forall₂
      (fun path line => ∃ node, command.at? path = some node ∧ Command.IsLineOf path node line)
      command.nodePaths (lines command.outline) ∧
    ∀ other : Command, other.Unbroken → other.outline = command.outline →
      command.SameShape other := by
  have hlines : Forall₂ (fun path line => ∃ node, command.at? path = some node ∧
      Command.IsLineOf path node line) command.nodePaths (lines command.outline) := by
    rw [Command.lines_outline h, List.forall₂_map_right_iff]
    refine (Command.forall₂_outlineLines command []).imp ?_
    rintro path _ ⟨node, hnode, rfl⟩
    exact ⟨node, hnode, Command.isLineOf_text path node⟩
  refine ⟨?_, command.pairwise_nodePaths, fun path => Command.mem_nodePaths_iff, hlines, ?_⟩
  · rw [← hlines.length_eq, length_nodePaths]
  · exact fun other hother heq => Command.sameShape_of_outline h hother heq.symm

/-- The workflow that opens a job and ends if it can be applied for; the button may be given some
time to appear. -/
def applicable (settle : Option Duration) : Command :=
  .sequence [.navigate "$\x7bJobUrl\x7d" .load,
    .ifElse (.elementExists "#apply" settle) (.exit true none) none]

theorem outline_shows_tree_applicable : (applicable none).Unbroken ∧
    (lines (applicable none).outline).length = 5 ∧
    (applicable none).SameShape (applicable (some ⟨2, 0⟩)) := by
  have hunbroken : (applicable none).Unbroken := by decide
  obtain ⟨hlength, -, -, -, hshape⟩ := outline_shows_tree hunbroken
  exact ⟨hunbroken, hlength, hshape (applicable (some ⟨2, 0⟩)) (by decide) rfl⟩

end Jobflow.Workflow
