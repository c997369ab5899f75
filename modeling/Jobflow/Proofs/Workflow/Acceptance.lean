import Jobflow.Proofs.Workflow.Compilation
import Mathlib.Data.List.Nodup

/-!
Which workflow documents are accepted, and how many nodes their trees have. Both are
read off the values that can be reached from the root: a document is accepted when
each of them is a well-formed node, and the tree has one node for each.
-/

namespace Jobflow.Workflow

open Jobflow.Json

/-! ### Steps from a node -/

theorem Below.kind {node : Node} {step : Step} {child : Value} (h : Below node step child) :
    OfKind node "sequence" ∨ OfKind node "ifelse" := by
  cases h with
  | command hkind => exact .inl hkind
  | condition hkind => exact .inr hkind
  | whenTrue hkind => exact .inr hkind
  | whenFalse hkind => exact .inr hkind

theorem below_sequence_iff {node : Node} (hkind : OfKind node "sequence") {step : Step}
    {child : Value} :
    Below node step child ↔ ∃ items index, Dict.find? "commands" node = some (.array items) ∧
      step = .command index ∧ items[index]? = some child := by
  constructor
  · intro h
    cases h with
    | command _ hitems hchild => exact ⟨_, _, hitems, rfl, hchild⟩
    | condition hother => exact absurd (hkind.unique hother) (by decide)
    | whenTrue hother => exact absurd (hkind.unique hother) (by decide)
    | whenFalse hother => exact absurd (hkind.unique hother) (by decide)
  · intro h
    obtain ⟨items, index, hitems, rfl, hchild⟩ := h
    exact .command hkind hitems hchild

theorem below_ifElse_iff {node : Node} (hkind : OfKind node "ifelse") {step : Step}
    {child : Value} :
    Below node step child ↔ (step = .condition ∧ Holds node "condition" child) ∨
      (step = .whenTrue ∧ Holds node "then" child) ∨
      (step = .whenFalse ∧ Holds node "else" child) := by
  constructor
  · intro h
    cases h with
    | command hother => exact absurd (hkind.unique hother) (by decide)
    | condition _ hchild => exact .inl ⟨rfl, hchild⟩
    | whenTrue _ hchild => exact .inr (.inl ⟨rfl, hchild⟩)
    | whenFalse _ hchild => exact .inr (.inr ⟨rfl, hchild⟩)
  · intro h
    rcases h with ⟨rfl, hchild⟩ | ⟨rfl, hchild⟩ | ⟨rfl, hchild⟩
    · exact .condition hkind hchild
    · exact .whenTrue hkind hchild
    · exact .whenFalse hkind hchild

/-! ### Acceptance -/

theorem DenoteAll.getElem? {values : List Value} {commands : List Command}
    (h : DenoteAll values commands) {index : Nat} {value : Value}
    (hvalue : values[index]? = some value) :
    ∃ command, commands[index]? = some command ∧ Denotes value command := by
  induction index generalizing values commands with
  | zero =>
    cases h with
    | nil => simp at hvalue
    | cons hfirst _ =>
      obtain rfl : _ = value := by simpa using hvalue
      exact ⟨_, rfl, hfirst⟩
  | succ index ih =>
    cases h with
    | nil => simp at hvalue
    | cons _ hrest =>
      obtain ⟨command, hcommand, hdenotes⟩ := ih hrest (by simpa using hvalue)
      exact ⟨command, by simpa using hcommand, hdenotes⟩

theorem Denotes.wellFormed {value : Value} {command : Command} (h : Denotes value command) :
    ∃ node, value = .object node ∧ WellFormed node := by
  cases h with
  | noCommands hkind hlacks => exact ⟨_, rfl, .sequence hkind (.inl hlacks)⟩
  | sequence hkind hitems => exact ⟨_, rfl, .sequence hkind (.inr ⟨_, hitems⟩)⟩
  | withoutElse hkind hc ht => exact ⟨_, rfl, .ifElse hkind hc ht⟩
  | withElse hkind hc ht => exact ⟨_, rfl, .ifElse hkind hc ht⟩
  | navigate hkind hurl hname => exact ⟨_, rfl, .navigate hkind hurl hname⟩
  | click hkind hselector htimeout hdelay hnext hidle =>
    exact ⟨_, rfl, .click hkind hselector htimeout hdelay hnext hidle⟩
  | elementExists hkind hselector hsettle =>
    exact ⟨_, rfl, .elementExists hkind hselector hsettle⟩
  | fillForm hkind hid => exact ⟨_, rfl, .fillForm hkind hid⟩
  | exit hkind hsuccess hgiven => exact ⟨_, rfl, .exit hkind hsuccess hgiven⟩
  | defaultPath hkind hlacks => exact ⟨_, rfl, .screenshot hkind (.inl hlacks)⟩
  | screenshot hkind hpath => exact ⟨_, rfl, .screenshot hkind (.inr ⟨_, hpath⟩)⟩

/-- What a node that denotes a tree leads to denotes a tree again. -/
theorem Denotes.of_below {node : Node} {command : Command} (h : Denotes (.object node) command)
    {step : Step} {child : Value} (hbelow : Below node step child) :
    ∃ sub, Denotes child sub := by
  cases h with
  | noCommands hkind hlacks =>
    obtain ⟨items, index, hitems, -, -⟩ := (below_sequence_iff hkind).mp hbelow
    exact absurd hlacks (not_lacks_of_holds ⟨hitems, by simp⟩)
  | sequence hkind hitems hchildren =>
    obtain ⟨items, index, hitems', -, hchild⟩ := (below_sequence_iff hkind).mp hbelow
    cases hitems.symm.trans hitems'
    obtain ⟨sub, -, hsub⟩ := hchildren.getElem? hchild
    exact ⟨sub, hsub⟩
  | withoutElse hkind hc ht hlacks hdc hdt =>
    rcases (below_ifElse_iff hkind).mp hbelow with ⟨-, hchild⟩ | ⟨-, hchild⟩ | ⟨-, hchild⟩
    · exact ⟨_, hc.unique hchild ▸ hdc⟩
    · exact ⟨_, ht.unique hchild ▸ hdt⟩
    · exact absurd hlacks (not_lacks_of_holds hchild)
  | withElse hkind hc ht he hdc hdt hde =>
    rcases (below_ifElse_iff hkind).mp hbelow with ⟨-, hchild⟩ | ⟨-, hchild⟩ | ⟨-, hchild⟩
    · exact ⟨_, hc.unique hchild ▸ hdc⟩
    · exact ⟨_, ht.unique hchild ▸ hdt⟩
    · exact ⟨_, he.unique hchild ▸ hde⟩
  | _ hkind =>
    rcases hbelow.kind with hother | hother
    · exact absurd (hkind.unique hother) (by decide)
    · exact absurd (hkind.unique hother) (by decide)

theorem Reaches.denotes {root value : Value} {path : NodePath} (h : Reaches root path value) :
    ∀ {command : Command}, Denotes root command → ∃ sub, Denotes value sub := by
  induction h with
  | here value => exact fun hdenotes => ⟨_, hdenotes⟩
  | under hbelow _ ih =>
    intro command hdenotes
    obtain ⟨sub, hsub⟩ := hdenotes.of_below hbelow
    exact ih hsub

private theorem exists_denoteAll {items : List Value}
    (h : ∀ item ∈ items, ∃ command, Denotes item command) :
    ∃ commands, DenoteAll items commands := by
  induction items with
  | nil => exact ⟨[], .nil⟩
  | cons item rest ih =>
    obtain ⟨command, hcommand⟩ := h item (by simp)
    obtain ⟨commands, hcommands⟩ := ih fun other hother => h other (by simp [hother])
    exact ⟨command :: commands, .cons hcommand hcommands⟩

theorem Below.sizeOf_lt {node : Node} {step : Step} {child : Value} (h : Below node step child) :
    sizeOf child < sizeOf node := by
  cases h with
  | command _ hitems hchild =>
    have harray := Dict.sizeOf_lt_of_find? hitems
    have hitem := List.sizeOf_lt_of_mem (List.mem_of_getElem? hchild)
    rw [Value.array.sizeOf_spec] at harray
    omega
  | condition _ hchild => exact Dict.sizeOf_lt_of_find? hchild.1
  | whenTrue _ hchild => exact Dict.sizeOf_lt_of_find? hchild.1
  | whenFalse _ hchild => exact Dict.sizeOf_lt_of_find? hchild.1

theorem exists_awaits (delay : Option Nat) (next : Option String) (idle : Bool) :
    ∃ after, Awaits delay next idle after :=
  ⟨_, waitAfter_eq_iff.mp rfl⟩

/-- A well-formed node denotes a tree if the nodes below it do. -/
theorem WellFormed.exists_denotes {node : Node} (h : WellFormed node)
    (hbelow : ∀ step child, Below node step child → ∃ command, Denotes child command) :
    ∃ command, Denotes (.object node) command := by
  cases h with
  | sequence hkind hcommands =>
    rcases hcommands with hlacks | ⟨items, hitems⟩
    · exact ⟨_, .noCommands hkind hlacks⟩
    · have hall : ∀ item ∈ items, ∃ command, Denotes item command := by
        intro item hitem
        obtain ⟨index, hindex⟩ := List.mem_iff_getElem?.mp hitem
        exact hbelow _ _ (.command hkind hitems hindex)
      obtain ⟨commands, hdenotes⟩ := exists_denoteAll hall
      exact ⟨_, .sequence hkind hitems hdenotes⟩
  | ifElse hkind hc ht =>
    obtain ⟨condition, hcondition⟩ := hbelow _ _ (.condition hkind hc)
    obtain ⟨whenTrue, hwhenTrue⟩ := hbelow _ _ (.whenTrue hkind ht)
    rcases lacks_or_holds node "else" with hlacks | ⟨e, he⟩
    · exact ⟨_, .withoutElse hkind hc ht hlacks hcondition hwhenTrue⟩
    · obtain ⟨whenFalse, hwhenFalse⟩ := hbelow _ _ (.whenFalse hkind he)
      exact ⟨_, .withElse hkind hc ht he hcondition hwhenTrue hwhenFalse⟩
  | navigate hkind hurl hname => exact ⟨_, .navigate hkind hurl hname⟩
  | click hkind hselector htimeout hdelay hnext hidle =>
    obtain ⟨after, hafter⟩ := exists_awaits _ _ _
    exact ⟨_, .click hkind hselector htimeout hdelay hnext hidle hafter⟩
  | elementExists hkind hselector hsettle => exact ⟨_, .elementExists hkind hselector hsettle⟩
  | fillForm hkind hid => exact ⟨_, .fillForm hkind hid⟩
  | exit hkind hsuccess hgiven =>
    exact ⟨_, .exit hkind hsuccess hgiven (nonEmpty_eq_iff_tells.mp rfl)⟩
  | screenshot hkind hpath =>
    rcases hpath with hlacks | ⟨path, hpath⟩
    · exact ⟨_, .defaultPath hkind hlacks⟩
    · exact ⟨_, .screenshot hkind hpath⟩

/-- Every value that is reached is a well-formed node. -/
def AllWellFormed (root : Value) : Prop :=
  ∀ path value, Reaches root path value → ∃ node, value = .object node ∧ WellFormed node

theorem AllWellFormed.exists_denotes {root : Value} (h : AllWellFormed root) :
    ∃ command, Denotes root command := by
  obtain ⟨node, hroot, hnode⟩ := h [] root (.here root)
  have hsize : sizeOf node < sizeOf root := by
    rw [hroot, Value.object.sizeOf_spec]
    omega
  rw [hroot] at h ⊢
  apply hnode.exists_denotes
  intro step child hbelow
  have hlt := hbelow.sizeOf_lt
  have hchild : AllWellFormed child := by
    intro path value hreaches
    exact h (step :: path) value (.under hbelow hreaches)
  exact hchild.exists_denotes
termination_by sizeOf root

theorem exists_denotes_iff {root : Value} :
    (∃ command, Denotes root command) ↔ AllWellFormed root := by
  refine ⟨?_, AllWellFormed.exists_denotes⟩
  rintro ⟨command, hdenotes⟩ path value hreaches
  obtain ⟨sub, hsub⟩ := hreaches.denotes hdenotes
  exact hsub.wellFormed

/-! ### The nodes of a document and of its tree -/

mutual

theorem length_nodePaths (command : Command) :
    command.nodePaths.length = command.nodeCount := by
  cases command with
  | sequence children =>
    rw [Command.nodePaths, Command.nodeCount, List.length_cons, length_childPaths 0 children]
    omega
  | ifElse condition whenTrue whenFalse =>
    have hcondition := length_nodePaths condition
    have hwhenTrue := length_nodePaths whenTrue
    cases whenFalse with
    | none =>
      simp only [Command.nodePaths, Command.nodeCount, List.length_cons, List.length_append,
        List.length_map]
      omega
    | some whenFalse =>
      have hwhenFalse := length_nodePaths whenFalse
      simp only [Command.nodePaths, Command.nodeCount, List.length_cons, List.length_append,
        List.length_map]
      omega
  | _ => rfl

theorem length_childPaths (index : Nat) (commands : List Command) :
    (Command.childPaths index commands).length = Command.nodeCounts commands := by
  cases commands with
  | nil => rfl
  | cons child rest =>
    rw [Command.childPaths, Command.nodeCounts, List.length_append, List.length_map,
      length_nodePaths child, length_childPaths (index + 1) rest]

end

private theorem mem_map_cons_iff {step : Step} {paths : List NodePath} {path : NodePath} :
    path ∈ paths.map (step :: ·) ↔ ∃ rest, path = step :: rest ∧ rest ∈ paths := by
  simp only [List.mem_map]
  exact ⟨fun ⟨rest, hrest, heq⟩ => ⟨rest, heq.symm, hrest⟩,
    fun ⟨rest, heq, hrest⟩ => ⟨rest, hrest, heq.symm⟩⟩

private theorem nodup_map_cons {paths : List NodePath} (h : paths.Nodup) (step : Step) :
    (paths.map (step :: ·)).Nodup :=
  h.map fun _ _ heq => (List.cons.inj heq).2

theorem exists_command_of_mem_childPaths {index : Nat} {commands : List Command} {path : NodePath}
    (h : path ∈ Command.childPaths index commands) :
    ∃ other rest, path = .command other :: rest ∧ index ≤ other := by
  induction commands generalizing index with
  | nil => simp [Command.childPaths] at h
  | cons child rest ih =>
    rw [Command.childPaths, List.mem_append, mem_map_cons_iff] at h
    rcases h with ⟨tail, rfl, -⟩ | hrest
    · exact ⟨index, tail, rfl, Nat.le_refl _⟩
    · obtain ⟨other, tail, hpath, hle⟩ := ih hrest
      exact ⟨other, tail, hpath, by omega⟩

mutual

theorem nodup_nodePaths (command : Command) : command.nodePaths.Nodup := by
  cases command with
  | sequence children =>
    rw [Command.nodePaths, List.nodup_cons]
    refine ⟨?_, nodup_childPaths 0 children⟩
    intro hmem
    obtain ⟨_, _, hnil, -⟩ := exists_command_of_mem_childPaths hmem
    cases hnil
  | ifElse condition whenTrue whenFalse =>
    have hcondition := nodup_map_cons (nodup_nodePaths condition) .condition
    have hwhenTrue := nodup_map_cons (nodup_nodePaths whenTrue) .whenTrue
    cases whenFalse with
    | none =>
      rw [Command.nodePaths, List.nodup_cons, List.nodup_append]
      refine ⟨by simp, hcondition, hwhenTrue, ?_⟩
      simp
    | some whenFalse =>
      have hwhenFalse := nodup_map_cons (nodup_nodePaths whenFalse) .whenFalse
      rw [Command.nodePaths, List.nodup_cons, List.nodup_append, List.nodup_append]
      refine ⟨by simp, hcondition, ⟨hwhenTrue, hwhenFalse, ?_⟩, ?_⟩
      · simp
      · simp only [List.mem_append, mem_map_cons_iff]
        rintro _ ⟨_, rfl, -⟩ _ (⟨_, rfl, -⟩ | ⟨_, rfl, -⟩) <;> simp
  | _ => simp [Command.nodePaths]

theorem nodup_childPaths (index : Nat) (commands : List Command) :
    (Command.childPaths index commands).Nodup := by
  cases commands with
  | nil => simp [Command.childPaths]
  | cons child rest =>
    rw [Command.childPaths, List.nodup_append]
    refine ⟨nodup_map_cons (nodup_nodePaths child) _, nodup_childPaths (index + 1) rest, ?_⟩
    rintro path hpath _ hrest rfl
    obtain ⟨_, rfl, -⟩ := mem_map_cons_iff.mp hpath
    obtain ⟨other, tail, heq, hle⟩ := exists_command_of_mem_childPaths hrest
    obtain ⟨hstep, -⟩ := List.cons.inj heq
    cases hstep
    omega

end

/-- The paths that lead somewhere from the node start with a step below it. -/
theorem exists_reaches_object_iff {node : Node} {path : NodePath} :
    (∃ value, Reaches (.object node) path value) ↔
      path = [] ∨ ∃ step child rest, path = step :: rest ∧ Below node step child ∧
        ∃ value, Reaches child rest value := by
  constructor
  · intro h
    obtain ⟨value, h⟩ := h
    cases h with
    | here => exact .inl rfl
    | under hbelow hpath => exact .inr ⟨_, _, _, rfl, hbelow, value, hpath⟩
  · intro h
    rcases h with rfl | ⟨step, child, rest, rfl, hbelow, value, hpath⟩
    · exact ⟨_, .here _⟩
    · exact ⟨value, .under hbelow hpath⟩

/-- The paths through the field of a branch. -/
private theorem exists_holds_iff {node : Node} {field : String} {c : Value}
    (hc : Holds node field c) {rest : NodePath} :
    (∃ child, Holds node field child ∧ ∃ value, Reaches child rest value) ↔
      ∃ value, Reaches c rest value := by
  constructor
  · intro h
    obtain ⟨child, hchild, hreaches⟩ := h
    rwa [hc.unique hchild]
  · exact fun hreaches => ⟨c, hc, hreaches⟩

theorem exists_reaches_ifElse_iff {node : Node} (hkind : OfKind node "ifelse") {path : NodePath} :
    (∃ value, Reaches (.object node) path value) ↔ path = [] ∨
      (∃ rest, path = .condition :: rest ∧
        ∃ child, Holds node "condition" child ∧ ∃ value, Reaches child rest value) ∨
      (∃ rest, path = .whenTrue :: rest ∧
        ∃ child, Holds node "then" child ∧ ∃ value, Reaches child rest value) ∨
      (∃ rest, path = .whenFalse :: rest ∧
        ∃ child, Holds node "else" child ∧ ∃ value, Reaches child rest value) := by
  rw [exists_reaches_object_iff]
  simp only [below_ifElse_iff hkind]
  constructor
  · intro h
    rcases h with hnil | ⟨step, child, rest, rfl, hstep, hpath⟩
    · exact .inl hnil
    rcases hstep with ⟨rfl, hchild⟩ | ⟨rfl, hchild⟩ | ⟨rfl, hchild⟩
    · exact .inr (.inl ⟨rest, rfl, child, hchild, hpath⟩)
    · exact .inr (.inr (.inl ⟨rest, rfl, child, hchild, hpath⟩))
    · exact .inr (.inr (.inr ⟨rest, rfl, child, hchild, hpath⟩))
  · intro h
    rcases h with hnil | ⟨rest, rfl, child, hchild, hpath⟩ | ⟨rest, rfl, child, hchild, hpath⟩ |
      ⟨rest, rfl, child, hchild, hpath⟩
    · exact .inl hnil
    · exact .inr ⟨_, child, rest, rfl, .inl ⟨rfl, hchild⟩, hpath⟩
    · exact .inr ⟨_, child, rest, rfl, .inr (.inl ⟨rfl, hchild⟩), hpath⟩
    · exact .inr ⟨_, child, rest, rfl, .inr (.inr ⟨rfl, hchild⟩), hpath⟩

theorem exists_reaches_leaf_iff {node : Node} {kind : String} (hkind : OfKind node kind)
    (hseq : kind ≠ "sequence") (hif : kind ≠ "ifelse") {path : NodePath} :
    (∃ value, Reaches (.object node) path value) ↔ path = [] := by
  rw [exists_reaches_object_iff]
  refine ⟨?_, Or.inl⟩
  intro h
  rcases h with hnil | ⟨step, child, rest, -, hbelow, -⟩
  · exact hnil
  · rcases hbelow.kind with hother | hother
    · exact absurd (hkind.unique hother) hseq
    · exact absurd (hkind.unique hother) hif

mutual

/-- The tree has a node wherever the document leads. -/
theorem mem_nodePaths_iff {value : Value} {command : Command} (h : Denotes value command)
    {path : NodePath} : path ∈ command.nodePaths ↔ ∃ reached, Reaches value path reached := by
  cases h with
  | noCommands hkind hlacks =>
    rw [exists_reaches_object_iff]
    simp only [Command.nodePaths, Command.childPaths, List.mem_singleton]
    refine ⟨Or.inl, ?_⟩
    intro h
    rcases h with rfl | ⟨step, child, rest, -, hbelow, -⟩
    · rfl
    · obtain ⟨items, _, hitems, -⟩ := (below_sequence_iff hkind).mp hbelow
      exact absurd hlacks (not_lacks_of_holds ⟨hitems, by simp⟩)
  | sequence hkind hitems hchildren =>
    rw [exists_reaches_object_iff, Command.nodePaths, List.mem_cons,
      mem_childPaths_iff hchildren 0]
    simp only [below_sequence_iff hkind]
    constructor
    · intro h
      rcases h with hnil | ⟨i, child, rest, rfl, hchild, hpath⟩
      · exact .inl hnil
      · exact .inr ⟨_, child, rest, rfl, ⟨_, i, hitems, by rw [Nat.zero_add], hchild⟩, hpath⟩
    · intro h
      rcases h with hnil | ⟨_, child, rest, rfl, ⟨items, i, hitems', rfl, hchild⟩, hpath⟩
      · exact .inl hnil
      · cases hitems.symm.trans hitems'
        exact .inr ⟨i, child, rest, by rw [Nat.zero_add], hchild, hpath⟩
  | withoutElse hkind hc ht hlacks hdc hdt =>
    simp only [exists_reaches_ifElse_iff hkind, Command.nodePaths, List.mem_cons, List.mem_append,
      mem_map_cons_iff, mem_nodePaths_iff hdc, mem_nodePaths_iff hdt, exists_holds_iff hc,
      exists_holds_iff ht, not_holds_of_lacks hlacks, false_and, exists_false, and_false, or_false]
  | withElse hkind hc ht he hdc hdt hde =>
    simp only [exists_reaches_ifElse_iff hkind, Command.nodePaths, List.mem_cons, List.mem_append,
      mem_map_cons_iff, mem_nodePaths_iff hdc, mem_nodePaths_iff hdt, mem_nodePaths_iff hde,
      exists_holds_iff hc, exists_holds_iff ht, exists_holds_iff he]
  | _ hkind =>
    rw [exists_reaches_leaf_iff hkind (by decide) (by decide)]
    simp [Command.nodePaths]

theorem mem_childPaths_iff {values : List Value} {commands : List Command}
    (h : DenoteAll values commands) (index : Nat) {path : NodePath} :
    path ∈ Command.childPaths index commands ↔
      ∃ i child rest, path = .command (index + i) :: rest ∧ values[i]? = some child ∧
        ∃ reached, Reaches child rest reached := by
  cases h with
  | nil => simp [Command.childPaths]
  | cons hvalue hvalues =>
    rw [Command.childPaths, List.mem_append, mem_map_cons_iff, mem_childPaths_iff hvalues]
    constructor
    · intro h
      rcases h with ⟨rest, rfl, hrest⟩ | ⟨i, child, rest, rfl, hchild, hrest⟩
      · exact ⟨0, _, rest, rfl, rfl, (mem_nodePaths_iff hvalue).mp hrest⟩
      · exact ⟨i + 1, child, rest, by rw [Nat.add_right_comm, Nat.add_assoc], hchild, hrest⟩
    · intro h
      rcases h with ⟨_ | i, child, rest, rfl, hchild, hrest⟩
      · obtain rfl := Option.some.inj hchild
        exact .inl ⟨rest, rfl, (mem_nodePaths_iff hvalue).mpr hrest⟩
      · exact .inr ⟨i, child, rest, by rw [Nat.add_right_comm, Nat.add_assoc], hchild, hrest⟩

end

/-- The tree has one node at each path that leads somewhere in the document. -/
structure SameNodes (root : Value) (tree : Command) : Prop where
  mem_iff : ∀ path, path ∈ tree.nodePaths ↔ ∃ value, Reaches root path value
  nodup : tree.nodePaths.Nodup
  length : tree.nodePaths.length = tree.nodeCount

theorem Denotes.sameNodes {root : Value} {tree : Command} (h : Denotes root tree) :
    SameNodes root tree where
  mem_iff _ := mem_nodePaths_iff h
  nodup := nodup_nodePaths tree
  length := length_nodePaths tree

/-- The compiler accepts exactly the JSON texts in which every reached value is a
well-formed node. It yields the tree that the grammar denotes, whose nodes are those
of the document. -/
theorem compile_follows_grammar (text : String) :
    ((∃ tree, compile text = .ok tree) ↔
      ∃ root, Json.parse text = .ok root ∧ AllWellFormed root) ∧
    (∀ tree, compile text = .ok tree ↔
      ∃ root, Json.parse text = .ok root ∧ Denotes root tree) ∧
    ∀ root tree, Json.parse text = .ok root → compile text = .ok tree → SameNodes root tree := by
  refine ⟨?_, fun tree => compile_eq_ok_iff, ?_⟩
  · simp only [compile_eq_ok_iff, ← exists_denotes_iff]
    exact ⟨fun ⟨tree, root, hparse, hdenotes⟩ => ⟨root, hparse, tree, hdenotes⟩,
      fun ⟨root, hparse, tree, hdenotes⟩ => ⟨tree, root, hparse, hdenotes⟩⟩
  · intro root tree hparse hcompile
    obtain ⟨root', hparse', hdenotes⟩ := compile_eq_ok_iff.mp hcompile
    obtain rfl := Except.ok.inj (hparse.symm.trans hparse')
    exact hdenotes.sameNodes

end Jobflow.Workflow
