import Jobflow.Proofs.Json.Records
import Jobflow.Workflow.Codec

/-!
Command trees as JSON values. The value that is written for a tree is read back as that tree,
whatever its depth and width, so different trees have different values. A value in memory may be
nested as deeply as it likes: only the reading of a text counts its levels.
-/

namespace Jobflow.Dict

variable {α : Type} {key k : String} {value v : α} {rest : Dict α}

theorem insert_nil : insert key value [] = [(key, value)] := rfl

theorem insert_cons_of_lt (h : key < k) :
    insert key value ((k, v) :: rest) = (key, value) :: (k, v) :: rest := if_pos h

theorem insert_cons_of_not_lt (h : ¬ key < k) (hne : key ≠ k) :
    insert key value ((k, v) :: rest) = (k, v) :: insert key value rest := by
  rw [insert, if_neg h, if_neg hne]

end Jobflow.Dict

namespace Jobflow.Time

/-- A length of time whose seconds fit 64 bits. -/
structure Duration.Fits (d : Duration) : Prop where
  secs : d.secs ≤ Text.maxU64
  nanos : d.nanos < 1000000000

instance (d : Duration) : Decidable d.Fits :=
  decidable_of_iff (d.secs ≤ Text.maxU64 ∧ d.nanos < 1000000000)
    ⟨fun h => ⟨h.1, h.2⟩, fun h => ⟨h.1, h.2⟩⟩

end Jobflow.Time

namespace Jobflow.Workflow

open Jobflow.Json
open Jobflow.Page (Readiness)
open Jobflow.Time (Duration)

/-! ### Lengths of time -/

def AfterClick.durations : AfterClick → List Duration
  | .delay d => [d]
  | _ => []

namespace Command

mutual

/-- The lengths of time that stand in a tree. -/
def durations : Command → List Duration
  | .sequence children => childDurations children
  | .ifElse condition whenTrue none => durations condition ++ durations whenTrue
  | .ifElse condition whenTrue (some whenFalse) =>
    durations condition ++ (durations whenTrue ++ durations whenFalse)
  | .click _ timeout after => timeout.toList ++ after.durations
  | .elementExists _ settle => settle.toList
  | _ => []

def childDurations : List Command → List Duration
  | [] => []
  | child :: rest => durations child ++ childDurations rest

end

/-- Every length of time in the tree fits its JSON form. -/
def Timed (command : Command) : Prop := ∀ d ∈ command.durations, d.Fits

instance (command : Command) : Decidable command.Timed :=
  inferInstanceAs (Decidable (∀ d ∈ command.durations, d.Fits))

end Command

/-! ### Parts of a node -/

section
variable {site : Site}

/-- An object is written with its members in the order of their names. -/
theorem ofValue_ofMembers (members : List (String × Value)) :
    Document.ofValue (.ofMembers members) =
      .object (Document.ofMembers (Dict.ofList members)) .closed := rfl

theorem read_duration {d : Duration} (h : d.Fits) :
    readDuration (bodySite site) (.ofValue (durationValue d)) = .ok d := by
  obtain ⟨secs, nanos⟩ := d
  obtain ⟨hsecs, hnanos⟩ := h
  dsimp only at hsecs hnanos
  have hreadSecs : readU64 (bodySite site) (.ofValue (.ofNat secs)) = .ok secs := by
    simpa [Value.ofNat, Document.ofValue, readU64, readNat] using hsecs
  have hreadNanos : readU32 (bodySite site) (.ofValue (.ofNat nanos)) = .ok nanos := by
    have hle : (nanos : Int) ≤ 4294967295 := by omega
    simpa [Value.ofNat, Document.ofValue, readU32, readNat] using hle
  have hduration : duration secs nanos = .ok ⟨secs, nanos⟩ := by
    have hwhole : nanos / 1000000000 = 0 := Nat.div_eq_of_lt hnanos
    rw [duration, hwhole, Nat.mod_eq_of_lt hnanos, Nat.add_zero]
    exact if_pos hsecs
  have hmembers : Dict.ofList [("secs", Value.ofNat secs), ("nanos", .ofNat nanos)] =
      [("nanos", .ofNat nanos), ("secs", .ofNat secs)] := by
    simp (disch := decide) only [Dict.ofList, List.foldl_cons, List.foldl_nil, Dict.insert_nil,
      Dict.insert_cons_of_lt]
  rw [durationValue, ofValue_ofMembers, hmembers]
  exact Record.read_object rfl
    (Record.readMembers_field rfl rfl hreadNanos (Record.readMembers_field rfl rfl hreadSecs rfl))
    hduration

/-- An object is never taken for a value that is missing. -/
theorem readOption_of_object {α : Type} {reader : Reader α} {members : List (String × Value)}
    {a : α} (h : reader site (.ofValue (.object members)) = .ok a) :
    readOption reader site (.ofValue (.object members)) = .ok (some a) := by
  rw [Document.ofValue] at h ⊢
  simp only [readOption, h, Except.map]

theorem read_duration? {d : Option Duration} (h : ∀ t ∈ d.toList, t.Fits) :
    readOption readDuration (bodySite site) (.ofValue (durationValue? d)) = .ok d := by
  cases d with
  | none => rfl
  | some d => exact readOption_of_object (read_duration (h d List.mem_cons_self))

theorem read_text? (text : Option String) :
    readOption readString (bodySite site) (.ofValue (.ofText? text)) = .ok text := by
  cases text <;> rfl

theorem read_readiness (readiness : Readiness) :
    readReadiness (bodySite site) (.ofValue (.string readiness.name)) = .ok readiness := by
  cases readiness <;> rfl

/-- The tag of an object, and what is left of the object. -/
theorem readTag_object {tag expected name : String} {known : List String}
    {members others : List (Except SyntaxError String × Document)} {key : Except SyntaxError String}
    (htag : members.find? (fun member => member.1.toOption = some tag) =
      some (key, .string (.ok name)))
    (hknown : name ∈ known)
    (hothers : members.filter (fun member => member.1.toOption ≠ some tag) = others) :
    readTag tag expected known (.object members .closed) = .ok (name, .object others .closed) := by
  simp only [readTag, htag, hothers, if_pos hknown, bind, Except.bind, pure, Except.pure]

/-- A record of one field. -/
theorem readOne_object {α : Type} {expected name : String} {reader : Reader α} {value : Document}
    {a : α} (h : reader (bodySite site) value = .ok a) :
    readOne expected name reader (bodySite site) (.object [(.ok name, value)] .closed) = .ok a := by
  have hfind {f : RecordField (Option α)} (hname : f.name = name) :
      Record.find? { expected := expected, fields := [f] } name = some f := by
    simp [Record.find?, hname]
  exact Record.read_object rfl (Record.readMembers_field (hfind rfl) rfl h rfl) rfl

/-- A list inside a tagged value, from its items. -/
theorem readList_array {α : Type} {reader : Reader α} {items : List Document} {as : List α}
    (h : readItems reader (bodySite site) items = .ok as) :
    readList reader (bodySite site) (.array items .closed) = .ok as := by
  have henter : (bodySite site).enter = .ok (bodySite site) := rfl
  have hclosed : malformed Stop.closed.readList = .ok () := rfl
  simp only [readList, henter, h, hclosed, bind, Except.bind, pure, Except.pure]

theorem read_afterClick {after : AfterClick} (h : ∀ t ∈ after.durations, t.Fits) :
    AfterClick.read (bodySite site) (.ofValue after.toValue) = .ok after := by
  cases after with
  | delay d =>
    have hbody :
        readOne "struct variant PostClickWait::Delay" "duration" readDuration (bodySite site)
        (.object [(.ok "duration", .ofValue (durationValue d))] .closed) = .ok d :=
      readOne_object (read_duration (h d List.mem_cons_self))
    have hmembers : Dict.ofList [("strategy", .string "delay"), ("duration", durationValue d)] =
        [("duration", durationValue d), ("strategy", .string "delay")] := by
      simp (disch := decide) only [Dict.ofList, List.foldl_cons, List.foldl_nil, Dict.insert_nil,
        Dict.insert_cons_of_lt]
    have htag : readTag "strategy" "internally tagged enum PostClickWait"
        ["delay", "selector", "network_idle", "none"]
        (.object (Document.ofMembers [("duration", durationValue d), ("strategy", .string "delay")])
          .closed) =
          .ok ("delay", .object [(.ok "duration", .ofValue (durationValue d))] .closed) :=
      readTag_object rfl (by decide) rfl
    rw [AfterClick.read, AfterClick.toValue, ofValue_ofMembers, hmembers, htag]
    change (readOne _ _ _ (bodySite site) _ >>= fun d => pure (AfterClick.delay d)) = _
    rw [hbody]
    rfl
  | selector next =>
    have hmembers :
        Dict.ofList [("strategy", Value.string "selector"), ("selector", .string next)] =
        [("selector", .string next), ("strategy", .string "selector")] := by
      simp (disch := decide) only [Dict.ofList, List.foldl_cons, List.foldl_nil, Dict.insert_nil,
        Dict.insert_cons_of_lt]
    rw [AfterClick.read, AfterClick.toValue, ofValue_ofMembers, hmembers]
    rfl
  | networkIdle => rfl
  | nothing => rfl

end

/-! ### Nodes -/

namespace Command

section
variable {site : Site} {height : Nat}

theorem toValue_sequence (children : List Command) :
    (sequence children).toValue =
      .object [("children", .array (toValues children)), ("kind", .string "sequence")] := by
  simp (disch := decide) only [toValue, Value.ofMembers, Dict.ofList, List.foldl_cons,
    List.foldl_nil, Dict.insert_nil, Dict.insert_cons_of_lt]

/-- The value of a branch that may be missing. -/
def elseValue : Option Command → Value
  | some whenFalse => whenFalse.toValue
  | none => .null

theorem toValue_ifElse (condition whenTrue : Command) (whenFalse : Option Command) :
    (ifElse condition whenTrue whenFalse).toValue =
      .object [("condition", condition.toValue), ("kind", .string "if_else"),
        ("otherwise", elseValue whenFalse), ("then", whenTrue.toValue)] := by
  cases whenFalse <;>
    simp (disch := decide) only [toValue, elseValue, Value.ofMembers, Dict.ofList, List.foldl_cons,
      List.foldl_nil, Dict.insert_nil, Dict.insert_cons_of_lt, Dict.insert_cons_of_not_lt]

theorem toValue_navigate (url : String) (readiness : Readiness) :
    (navigate url readiness).toValue =
      .object [("kind", .string "navigate"), ("url", .string url),
        ("wait_until", .string readiness.name)] := by
  simp (disch := decide) only [toValue, Value.ofMembers, Dict.ofList, List.foldl_cons,
    List.foldl_nil, Dict.insert_nil, Dict.insert_cons_of_not_lt]

theorem toValue_click (selector : String) (timeout : Option Duration) (after : AfterClick) :
    (click selector timeout after).toValue =
      .object [("kind", .string "click"), ("post_click", after.toValue),
        ("selector", .string selector), ("timeout", durationValue? timeout)] := by
  simp (disch := decide) only [toValue, Value.ofMembers, Dict.ofList, List.foldl_cons,
    List.foldl_nil, Dict.insert_nil, Dict.insert_cons_of_lt, Dict.insert_cons_of_not_lt]

theorem toValue_elementExists (selector : String) (settle : Option Duration) :
    (elementExists selector settle).toValue =
      .object [("kind", .string "element_exists"), ("selector", .string selector),
        ("timeout", durationValue? settle)] := by
  simp (disch := decide) only [toValue, Value.ofMembers, Dict.ofList, List.foldl_cons,
    List.foldl_nil, Dict.insert_nil, Dict.insert_cons_of_not_lt]

theorem toValue_fillForm (formId : String) :
    (fillForm formId).toValue =
      .object [("form_id", .string formId), ("kind", .string "fill_form")] := by
  simp (disch := decide) only [toValue, Value.ofMembers, Dict.ofList, List.foldl_cons,
    List.foldl_nil, Dict.insert_nil, Dict.insert_cons_of_lt]

theorem toValue_exit (success : Bool) (message : Option String) :
    (exit success message).toValue =
      .object [("kind", .string "exit"), ("message", .ofText? message),
        ("success", .bool success)] := by
  simp (disch := decide) only [toValue, Value.ofMembers, Dict.ofList, List.foldl_cons,
    List.foldl_nil, Dict.insert_nil, Dict.insert_cons_of_lt, Dict.insert_cons_of_not_lt]

theorem toValue_screenshot (pathTemplate : String) :
    (screenshot pathTemplate).toValue =
      .object [("kind", .string "screenshot"), ("path_template", .string pathTemplate)] := by
  simp (disch := decide) only [toValue, Value.ofMembers, Dict.ofList, List.foldl_cons,
    List.foldl_nil, Dict.insert_nil, Dict.insert_cons_of_not_lt]

/-- The value of every node is an object. -/
theorem exists_members (command : Command) : ∃ members, command.toValue = .object members := by
  cases command with
  | sequence children => exact ⟨_, toValue_sequence children⟩
  | ifElse condition whenTrue whenFalse => exact ⟨_, toValue_ifElse condition whenTrue whenFalse⟩
  | navigate url readiness => exact ⟨_, toValue_navigate url readiness⟩
  | click selector timeout after => exact ⟨_, toValue_click selector timeout after⟩
  | elementExists selector settle => exact ⟨_, toValue_elementExists selector settle⟩
  | fillForm formId => exact ⟨_, toValue_fillForm formId⟩
  | exit success message => exact ⟨_, toValue_exit success message⟩
  | screenshot pathTemplate => exact ⟨_, toValue_screenshot pathTemplate⟩

/-- A node is read by its tag, from what is left of its object. -/
theorem readUpTo_object {tag : String} {key : Except SyntaxError String}
    {members others : List (Except SyntaxError String × Document)} {command : Command}
    (htag : members.find? (fun member => member.1.toOption = some "kind") =
      some (key, .string (.ok tag)))
    (hknown : tag ∈ tags)
    (hothers : members.filter (fun member => member.1.toOption ≠ some "kind") = others)
    (hnode : readNode (readUpTo height) tag (bodySite site) (.object others .closed) =
      .ok command) :
    readUpTo (height + 1) site (.object members .closed) = .ok command := by
  simp only [readUpTo, readTag_object htag hknown hothers, bind, Except.bind]
  exact hnode

theorem readUpTo_sequence {children : List Command}
    (h : readList (readUpTo height) (bodySite site) (.ofValue (.array (toValues children))) =
      .ok children) :
    readUpTo (height + 1) site (.ofValue (sequence children).toValue) =
      .ok (.sequence children) := by
  rw [toValue_sequence]
  exact readUpTo_object rfl (by decide) rfl
    (Record.read_object rfl (Record.readMembers_field rfl rfl h rfl) rfl)

theorem readUpTo_ifElse {condition whenTrue : Command} {whenFalse : Option Command}
    (hcondition : readUpTo height (bodySite site) (.ofValue condition.toValue) = .ok condition)
    (htrue : readUpTo height (bodySite site) (.ofValue whenTrue.toValue) = .ok whenTrue)
    (hfalse : readOption (readUpTo height) (bodySite site) (.ofValue (elseValue whenFalse)) =
      .ok whenFalse) :
    readUpTo (height + 1) site (.ofValue (ifElse condition whenTrue whenFalse).toValue) =
      .ok (.ifElse condition whenTrue whenFalse) := by
  rw [toValue_ifElse]
  exact readUpTo_object rfl (by decide) rfl (Record.read_object rfl
    (Record.readMembers_field rfl rfl hcondition
      (Record.readMembers_field rfl rfl hfalse (Record.readMembers_field rfl rfl htrue rfl))) rfl)

theorem readUpTo_navigate (url : String) (readiness : Readiness) :
    readUpTo (height + 1) site (.ofValue (navigate url readiness).toValue) =
      .ok (.navigate url readiness) := by
  rw [toValue_navigate]
  exact readUpTo_object rfl (by decide) rfl (Record.read_object rfl
    (Record.readMembers_field rfl rfl rfl
      (Record.readMembers_field rfl rfl (read_readiness readiness) rfl)) rfl)

theorem readUpTo_click (selector : String) {timeout : Option Duration} {after : AfterClick}
    (htimeout : ∀ d ∈ timeout.toList, d.Fits) (hafter : ∀ d ∈ after.durations, d.Fits) :
    readUpTo (height + 1) site (.ofValue (click selector timeout after).toValue) =
      .ok (.click selector timeout after) := by
  rw [toValue_click]
  exact readUpTo_object rfl (by decide) rfl (Record.read_object rfl
    (Record.readMembers_field rfl rfl (read_afterClick hafter)
      (Record.readMembers_field rfl rfl rfl
        (Record.readMembers_field rfl rfl (read_duration? htimeout) rfl))) rfl)

theorem readUpTo_elementExists (selector : String) {settle : Option Duration}
    (hsettle : ∀ d ∈ settle.toList, d.Fits) :
    readUpTo (height + 1) site (.ofValue (elementExists selector settle).toValue) =
      .ok (.elementExists selector settle) := by
  rw [toValue_elementExists]
  exact readUpTo_object rfl (by decide) rfl (Record.read_object rfl
    (Record.readMembers_field rfl rfl rfl
      (Record.readMembers_field rfl rfl (read_duration? hsettle) rfl)) rfl)

theorem readUpTo_fillForm (formId : String) :
    readUpTo (height + 1) site (.ofValue (fillForm formId).toValue) = .ok (.fillForm formId) := by
  rw [toValue_fillForm]
  exact readUpTo_object rfl (by decide) rfl
    (Record.read_object rfl (Record.readMembers_field rfl rfl rfl rfl) rfl)

theorem readUpTo_exit (success : Bool) (message : Option String) :
    readUpTo (height + 1) site (.ofValue (exit success message).toValue) =
      .ok (.exit success message) := by
  rw [toValue_exit]
  exact readUpTo_object rfl (by decide) rfl (Record.read_object rfl
    (Record.readMembers_field rfl rfl (read_text? message)
      (Record.readMembers_field rfl rfl rfl rfl)) rfl)

theorem readUpTo_screenshot (pathTemplate : String) :
    readUpTo (height + 1) site (.ofValue (screenshot pathTemplate).toValue) =
      .ok (.screenshot pathTemplate) := by
  rw [toValue_screenshot]
  exact readUpTo_object rfl (by decide) rfl
    (Record.read_object rfl (Record.readMembers_field rfl rfl rfl rfl) rfl)

/-! ### Trees -/

theorem valueHeight_pos (value : Value) : 0 < valueHeight value := by
  unfold valueHeight
  split <;> omega

/-- The nodes of a sequence are lower than the sequence. -/
theorem itemsHeight_lt_sequence (children : List Command) :
    itemsHeight (toValues children) < valueHeight (sequence children).toValue := by
  simp only [toValue_sequence, valueHeight, membersHeight]
  omega

/-- The parts of a choice are lower than the choice. -/
theorem valueHeight_lt_ifElse (condition whenTrue : Command) (whenFalse : Option Command) :
    valueHeight condition.toValue < valueHeight (ifElse condition whenTrue whenFalse).toValue ∧
      valueHeight whenTrue.toValue < valueHeight (ifElse condition whenTrue whenFalse).toValue ∧
      valueHeight (elseValue whenFalse) <
        valueHeight (ifElse condition whenTrue whenFalse).toValue := by
  simp only [toValue_ifElse, valueHeight, membersHeight]
  omega

theorem timed_ifElse_iff {condition whenTrue : Command} {whenFalse : Option Command} :
    (ifElse condition whenTrue whenFalse).Timed ↔
      condition.Timed ∧ whenTrue.Timed ∧ ∀ command ∈ whenFalse, command.Timed := by
  cases whenFalse <;> simp [Timed, durations, or_imp, forall_and]

end

mutual

/-- Trees that are no taller than the bound are read back, at every place. -/
theorem readUpTo_toValue (command : Command) (htimed : command.Timed) {height : Nat}
    (hheight : valueHeight command.toValue ≤ height) (site : Site) :
    readUpTo height site (.ofValue command.toValue) = .ok command := by
  have hpos := valueHeight_pos command.toValue
  obtain ⟨below, rfl⟩ : ∃ below, height = below + 1 := ⟨height - 1, by omega⟩
  cases command with
  | sequence children =>
    have hlower := itemsHeight_lt_sequence children
    have hitems :
        readItems (readUpTo below) (bodySite site) (Document.ofItems (toValues children)) =
        .ok children :=
      readItems_toValues children (fun d hd => htimed d (by simpa [durations] using hd))
        (by omega) _
    exact readUpTo_sequence (readList_array hitems)
  | ifElse condition whenTrue whenFalse =>
    obtain ⟨hcondition, htrue, hfalse⟩ := timed_ifElse_iff.mp htimed
    obtain ⟨hcLower, htLower, hfLower⟩ := valueHeight_lt_ifElse condition whenTrue whenFalse
    exact readUpTo_ifElse (readUpTo_toValue condition hcondition (by omega) _)
      (readUpTo_toValue whenTrue htrue (by omega) _)
      (readElse_toValue whenFalse hfalse (by omega) _)
  | navigate url readiness => exact readUpTo_navigate url readiness
  | click selector timeout after =>
    exact readUpTo_click selector (fun d hd => htimed d (by simp [durations, hd]))
      fun d hd => htimed d (by simp [durations, hd])
  | elementExists selector settle =>
    exact readUpTo_elementExists selector fun d hd => htimed d (by simpa [durations] using hd)
  | fillForm formId => exact readUpTo_fillForm formId
  | exit success message => exact readUpTo_exit success message
  | screenshot pathTemplate => exact readUpTo_screenshot pathTemplate

theorem readItems_toValues (children : List Command)
    (htimed : ∀ d ∈ childDurations children, d.Fits)
    {height : Nat} (hheight : itemsHeight (toValues children) ≤ height) (site : Site) :
    readItems (readUpTo height) site (Document.ofItems (toValues children)) = .ok children := by
  cases children with
  | nil => rfl
  | cons child rest =>
    rw [toValues, itemsHeight] at hheight
    have hchild : readUpTo height site (.ofValue child.toValue) = .ok child :=
      readUpTo_toValue child (fun d hd => htimed d (by simp [childDurations, hd])) (by omega) site
    have hrest : readItems (readUpTo height) site (Document.ofItems (toValues rest)) = .ok rest :=
      readItems_toValues rest (fun d hd => htimed d (by simp [childDurations, hd])) (by omega) site
    simp only [toValues, Document.ofItems, readItems, hchild, hrest, bind, Except.bind, pure,
      Except.pure]

theorem readElse_toValue (whenFalse : Option Command)
    (htimed : ∀ command ∈ whenFalse, command.Timed)
    {height : Nat} (hheight : valueHeight (elseValue whenFalse) ≤ height) (site : Site) :
    readOption (readUpTo height) site (.ofValue (elseValue whenFalse)) = .ok whenFalse := by
  cases whenFalse with
  | none => rfl
  | some command =>
    have hread := readUpTo_toValue command (htimed command rfl) hheight site
    obtain ⟨members, hmembers⟩ := exists_members command
    rw [elseValue, hmembers]
    rw [hmembers] at hread
    exact readOption_of_object hread

end

/-- Every tree is read back from the value that is written for it, and no other tree is written
as the same value. -/
theorem toValue_is_faithful {command : Command} (h : command.Timed) :
    ofValue command.toValue = .ok command ∧
      ∀ other : Command, other.Timed → other.toValue = command.toValue → other = command := by
  have hread {command : Command} (h : command.Timed) : ofValue command.toValue = .ok command :=
    readUpTo_toValue command h (Nat.le_refl _) _
  refine ⟨hread h, fun other hother heq => ?_⟩
  have hsame : (.ok other : Except Error Command) = .ok command := by
    rw [← hread hother, heq, hread h]
  exact Except.ok.inj hsame

/-- A choice whose condition gets as long to settle as can be, in a sequence. -/
def patient : Command :=
  .sequence [.navigate "https://example.org" .networkIdle,
    .ifElse (.elementExists "#apply" (some ⟨Text.maxU64, 999999999⟩))
      (.sequence [.click "#apply" none (.delay ⟨1, 500000000⟩), .exit true (some "applied")])
      (some (.screenshot defaultScreenshotPath))]

theorem toValue_is_faithful_patient :
    patient.Timed ∧ ofValue patient.toValue = .ok patient ∧
      ∀ other : Command, other.Timed → other.toValue = patient.toValue → other = patient := by
  have h : patient.Timed := by decide
  exact ⟨h, toValue_is_faithful h⟩

end Command

end Jobflow.Workflow
