import Jobflow.Proofs.Workflow.Pages

/-!
Filling a form on a page whose answer to a call depends on that call alone. The types of all fields
are checked before the page is touched. After that each field takes calls of its own, which tell
whether it can be filled and fill it, whatever becomes of the other fields.
-/

namespace Jobflow.Workflow

open Jobflow.Page (Call PageError Reply)
open Jobflow.Rehearsal (Fault Script Stage scripted)
open Jobflow.Run (SessionId)

variable {W α β : Type}

/-! ### The calls of one field -/

/-- What a page answers to each call. -/
abbrev Replies := (call : Call) → Reply call.Answer

namespace Replies

variable (replies : Replies) (selector : String)

def count : Except PageError Nat := (replies (.count selector)).result

def isVisible : Except PageError Bool := (replies (.isVisible selector)).result

def isEnabled : Except PageError Bool := (replies (.isEnabled selector)).result

end Replies

/-- The calls that tell whether an element can be filled. An element is asked for only if there is
one, and whether it is enabled only once it is known whether it is visible. -/
def checkCalls (replies : Replies) (selector : String) : List Call :=
  .count selector ::
    if anyCounted (replies.count selector) then
      .isVisible selector :: if (replies.isVisible selector).isOk then [.isEnabled selector] else []
    else []

/-- There is such an element, it is visible and it is enabled, and all this can be told. -/
structure IsReady (replies : Replies) (selector : String) : Prop where
  present : ∃ n, 0 < n ∧ replies.count selector = .ok n
  visible : replies.isVisible selector = .ok true
  enabled : replies.isEnabled selector = .ok true

/-- The calls that put a value into an element: a text is written once the element was cleared. -/
def valueCalls (replies : Replies) (kind : FieldKind) (selector value : String) : List Call :=
  match kind with
  | .text | .email | .password | .textarea =>
    .fill selector "" ::
      if (replies (.fill selector "")).result.isOk then [.fill selector value] else []
  | .select => [.selectOption selector value]
  | .radio => [.check (selector ++ "[value='" ++ value ++ "']")]
  | .checkbox =>
    match parseCheckbox value with
    | some true => [.check selector]
    | some false => [.uncheck selector]
    | none => []
  | .file => [.setInputFiles selector value]

theorem isReady_iff {replies : Replies} {selector : String} :
    IsReady replies selector ↔ anyCounted (replies.count selector) = true ∧
      replies.isVisible selector = .ok true ∧ replies.isEnabled selector = .ok true := by
  constructor
  · intro h
    exact ⟨(anyCounted_iff _).mpr h.present, h.visible, h.enabled⟩
  · rintro ⟨hpresent, hvisible, henabled⟩
    exact ⟨(anyCounted_iff _).mp hpresent, hvisible, henabled⟩

instance (replies : Replies) (selector : String) : Decidable (IsReady replies selector) :=
  decidable_of_iff _ isReady_iff.symm

/-- The calls of a field of that kind. -/
def kindCalls (replies : Replies) (ctx : Context) (kind : FieldKind) (field : FormField) :
    List Call :=
  let selector := interpolate ctx field.selector
  checkCalls replies selector ++
    if IsReady replies selector then
      valueCalls replies kind selector (interpolate ctx field.value)
    else []

/-- The calls of a field, which has none if its type is not supported. -/
def fieldCalls (replies : Replies) (ctx : Context) (field : FormField) : List Call :=
  match FieldKind.parse? field.typeName with
  | some kind => kindCalls replies ctx kind field
  | none => []

/-- The calls that change what stands in a field. -/
def changesField : Call → Bool
  | .fill .. | .selectOption .. | .check _ | .uncheck _ | .setInputFiles .. => true
  | _ => false

theorem changesField_checkCalls {replies : Replies} {selector : String} {call : Call}
    (h : call ∈ checkCalls replies selector) : changesField call = false := by
  unfold checkCalls at h
  split at h
  · split at h
    · simp only [List.mem_cons, List.not_mem_nil, or_false] at h
      rcases h with rfl | rfl | rfl <;> rfl
    · simp only [List.mem_cons, List.not_mem_nil, or_false] at h
      rcases h with rfl | rfl <;> rfl
  · obtain rfl := List.mem_singleton.mp h
    rfl

theorem checkCalls_of_ready {replies : Replies} {selector : String}
    (h : IsReady replies selector) :
    checkCalls replies selector = [.count selector, .isVisible selector, .isEnabled selector] := by
  have hcounted := (isReady_iff.mp h).1
  have hvisible : (replies.isVisible selector).isOk = true := by
    rw [h.visible]
    rfl
  simp only [checkCalls, hcounted, hvisible, if_true]

/-- A field that cannot be filled is left as it is. -/
theorem changesField_of_not_ready {replies : Replies} {ctx : Context} {field : FormField}
    (h : ¬ IsReady replies (interpolate ctx field.selector)) :
    ∀ call ∈ fieldCalls replies ctx field, changesField call = false := by
  intro call hcall
  unfold fieldCalls at hcall
  split at hcall
  · rw [kindCalls, if_neg h, List.append_nil] at hcall
    exact changesField_checkCalls hcall
  · cases hcall

/-- A checkbox whose value is neither true nor false is left as it is. -/
theorem changesField_of_not_bool {replies : Replies} {ctx : Context} {field : FormField}
    (hkind : FieldKind.parse? field.typeName = some .checkbox)
    (hvalue : parseCheckbox (interpolate ctx field.value) = none) :
    ∀ call ∈ fieldCalls replies ctx field, changesField call = false := by
  intro call hcall
  have hnone : valueCalls replies .checkbox (interpolate ctx field.selector)
      (interpolate ctx field.value) = [] := by
    simp only [valueCalls, hvalue]
  simp only [fieldCalls, hkind, kindCalls, hnone, ite_self, List.append_nil] at hcall
  exact changesField_checkCalls hcall

/-! ### The types of the fields -/

def FormField.IsSupported (field : FormField) : Prop :=
  (FieldKind.parse? field.typeName).isSome

instance (field : FormField) : Decidable field.IsSupported :=
  inferInstanceAs (Decidable ((FieldKind.parse? field.typeName).isSome = true))

/-- A form whose field types are all supported has its fields with their kinds. -/
theorem fieldKinds_of_supported {fields : List FormField}
    (h : ∀ field ∈ fields, field.IsSupported) :
    ∃ kinds, fieldKinds fields = .ok kinds ∧ kinds.map Prod.fst = fields ∧
      ∀ field ∈ kinds, FieldKind.parse? field.1.typeName = some field.2 := by
  induction fields with
  | nil => exact ⟨[], rfl, rfl, nofun⟩
  | cons field rest ih =>
    obtain ⟨kind, hkind⟩ := Option.isSome_iff_exists.mp (h field List.mem_cons_self)
    obtain ⟨kinds, hrest, hfields, hkinds⟩ :=
      ih fun other hother => h other (List.mem_cons_of_mem _ hother)
    refine ⟨(field, kind) :: kinds, ?_, ?_, ?_⟩
    · simp only [fieldKinds, FormField.kind, hkind, hrest]
      rfl
    · rw [List.map_cons, hfields]
    · exact List.forall_mem_cons.mpr ⟨hkind, hkinds⟩

/-- The first field whose type is not supported is reported. -/
theorem fieldKinds_of_unsupported {before : List FormField} {field : FormField}
    (after : List FormField) (hbefore : ∀ other ∈ before, other.IsSupported)
    (hfield : ¬ field.IsSupported) :
    fieldKinds (before ++ field :: after) = .error (.configuration
      ("unsupported field type '" ++ field.typeName ++ "' for field '" ++ field.name ++ "'")) := by
  induction before with
  | nil =>
    have hkind : FieldKind.parse? field.typeName = none := Option.not_isSome_iff_eq_none.mp hfield
    simp only [List.nil_append, fieldKinds, FormField.kind, hkind]
    rfl
  | cons first rest ih =>
    obtain ⟨kind, hkind⟩ := Option.isSome_iff_exists.mp (hbefore first List.mem_cons_self)
    have hrest := ih fun other hother => hbefore other (List.mem_cons_of_mem _ hother)
    simp only [List.cons_append, fieldKinds, FormField.kind, hkind, hrest]
    rfl

theorem exists_first_unsupported {fields : List FormField}
    (h : ∃ field ∈ fields, ¬ field.IsSupported) :
    ∃ before field after, fields = before ++ field :: after ∧
      (∀ other ∈ before, other.IsSupported) ∧ ¬ field.IsSupported := by
  obtain ⟨first, hfirst⟩ :
      ∃ first, fields.find? (fun field => ¬ field.IsSupported) = some first := by
    rw [← Option.isSome_iff_exists, List.find?_isSome]
    simpa using h
  obtain ⟨hfield, before, after, hfields, hbefore⟩ := List.find?_eq_some_iff_append.mp hfirst
  refine ⟨before, first, after, hfields, ?_, by simpa using hfield⟩
  intro other hother
  simpa using hbefore other hother

/-! ### Pages that keep to their answers -/

/-- The page answers each call the same way, whatever was done on it before. -/
def PageDriver.IsSteady (d : PageDriver W) (replies : Replies) : Prop :=
  ∀ history call, d.page.answer history call = replies call

/-- What a scripted page answers. -/
def scriptReplies (script : Script) (faults : List Fault) : Replies :=
  (scripted script faults).answer []

/-- A session in which a scripted page is shown. -/
theorem isSteady_scripted {stage : Stage} {script : Script} {faults : List Fault}
    {session : SessionId} (h : stage.page = scripted script faults) :
    (sessionDriver stage session).IsSteady (scriptReplies script faults) := by
  intro history call
  rw [show (sessionDriver stage session).page = stage.page from rfl, h]
  rfl

/-- Carried out in any world, the program makes these calls. -/
def TakesCalls (d : PageDriver W) (p : Browsing α) (calls : List Call) : Prop :=
  ∀ w, (d.carryOut p w).calls = calls

section
variable {d : PageDriver W} {replies : Replies} {call : Call} {calls later : List Call}

theorem takesCalls_pure (a : α) : TakesCalls d (pure a) [] := fun _ => rfl

theorem takesCalls_onPage (call : Call) : TakesCalls d (onPage call) [call] := by
  intro w
  rw [d.carryOut_onPage]

theorem TakesCalls.bind {p : Browsing α} {next : α → Browsing β} (hp : TakesCalls d p calls)
    (hnext : ∀ a, TakesCalls d (next a) later) : TakesCalls d (p >>= next) (calls ++ later) := by
  intro w
  rw [Driver.carryOut_bind, Carried.followedBy, hp, hnext]

theorem takesCalls_proceed_ok (hd : d.IsSteady replies)
    {next : call.Answer → Browsing (Except PageError α)} {a : call.Answer}
    (ha : (replies call).result = .ok a) (hnext : TakesCalls d (next a) later) :
    TakesCalls d (proceed (onPage call) next) (call :: later) := by
  intro w
  have htaken := d.carryOut_onPage call w
  rw [hd, ha] at htaken
  rw [Driver.carryOut_proceed_ok htaken, Carried.followedBy, hnext]
  rfl

theorem takesCalls_proceed_error (hd : d.IsSteady replies)
    {next : call.Answer → Browsing (Except PageError α)} {e : PageError}
    (he : (replies call).result = .error e) :
    TakesCalls d (proceed (onPage call) next) [call] := by
  intro w
  have htaken := d.carryOut_onPage call w
  rw [hd, he] at htaken
  rw [Driver.carryOut_proceed_error htaken]

theorem takesCalls_fillElement (hd : d.IsSteady replies) (kind : FieldKind)
    (selector value : String) :
    TakesCalls d (fillElement kind selector value) (valueCalls replies kind selector value) := by
  have htext : TakesCalls d
      (proceed (onPage (.fill selector "")) fun _ => onPage (.fill selector value))
      (.fill selector "" ::
        if (replies (.fill selector "")).result.isOk then [.fill selector value] else []) := by
    cases hcleared : (replies (.fill selector "")).result with
    | ok => exact takesCalls_proceed_ok hd hcleared (takesCalls_onPage _)
    | error e => exact takesCalls_proceed_error hd hcleared
  cases kind with
  | text => exact htext
  | email => exact htext
  | password => exact htext
  | textarea => exact htext
  | select => exact takesCalls_onPage _
  | radio => exact takesCalls_onPage _
  | checkbox =>
    unfold fillElement valueCalls
    cases parseCheckbox value with
    | none => exact takesCalls_pure _
    | some checked =>
      cases checked with
      | true => exact takesCalls_onPage _
      | false => exact takesCalls_onPage _
  | file => exact (takesCalls_onPage _).bind fun _ => takesCalls_pure _

theorem takesCalls_fillField (hd : d.IsSteady replies) (ctx : Context) (field : FormField)
    (kind : FieldKind) :
    TakesCalls d (fillField ctx field kind) (kindCalls replies ctx kind field) := by
  by_cases hready : IsReady replies (interpolate ctx field.selector)
  · obtain ⟨n, hn, hcount⟩ := hready.present
    rw [kindCalls, if_pos hready, checkCalls_of_ready hready, fillField]
    apply takesCalls_proceed_ok hd hcount
    rw [if_neg hn.ne']
    apply takesCalls_proceed_ok hd hready.visible
    apply takesCalls_proceed_ok hd hready.enabled
    rw [if_pos (Bool.and_self true)]
    exact takesCalls_fillElement hd kind _ _
  · -- the field is passed over at the first check that goes against it
    rw [kindCalls, if_neg hready, List.append_nil, checkCalls, fillField]
    cases hcount : replies.count (interpolate ctx field.selector) with
    | error e => exact takesCalls_proceed_error hd hcount
    | ok n =>
      apply takesCalls_proceed_ok hd hcount
      by_cases hn : n = 0
      · subst hn
        exact takesCalls_pure _
      · have hpos : 0 < n := Nat.pos_of_ne_zero hn
        have hcounted : anyCounted (.ok n) = true := (anyCounted_iff _).mpr ⟨n, hpos, rfl⟩
        rw [if_neg hn, if_pos hcounted]
        cases hvisible : replies.isVisible (interpolate ctx field.selector) with
        | error e => exact takesCalls_proceed_error hd hvisible
        | ok visible =>
          apply takesCalls_proceed_ok hd hvisible
          cases henabled : replies.isEnabled (interpolate ctx field.selector) with
          | error e => exact takesCalls_proceed_error hd henabled
          | ok enabled =>
            apply takesCalls_proceed_ok hd henabled
            have hskipped : ¬ (visible && enabled) = true := by
              intro hboth
              obtain ⟨rfl, rfl⟩ := Bool.and_eq_true_iff.mp hboth
              exact hready ⟨⟨n, hpos, hcount⟩, hvisible, henabled⟩
            rw [if_neg hskipped]
            exact takesCalls_pure _

theorem takesCalls_fillFields (hd : d.IsSteady replies) (ctx : Context)
    (fields : List (FormField × FieldKind))
    (hkinds : ∀ field ∈ fields, FieldKind.parse? field.1.typeName = some field.2) :
    TakesCalls d (fillFields ctx fields)
      ((fields.map Prod.fst).flatMap (fieldCalls replies ctx)) := by
  induction fields with
  | nil => exact takesCalls_pure ()
  | cons field rest ih =>
    have hfield : fieldCalls replies ctx field.1 = kindCalls replies ctx field.2 field.1 := by
      rw [fieldCalls, hkinds field List.mem_cons_self]
    rw [List.map_cons, List.flatMap_cons, hfield]
    exact (takesCalls_fillField hd ctx field.1 field.2).bind fun _ =>
      ih fun other hother => hkinds other (List.mem_cons_of_mem _ hother)

/-- The fields of a form are filled one after another, each by its own calls. -/
theorem carryOut_fillForm_of_ok (hd : d.IsSteady replies) (ctx : Context) {id : String}
    {form : Form} {w : W} (hform : (d.act (.form id) w).1 = .ok form)
    (hsupported : ∀ field ∈ form.fields, field.IsSupported) :
    (d.carryOut (fillForm ctx id) w).calls = form.fields.flatMap (fieldCalls replies ctx) ∧
      (d.carryOut (fillForm ctx id) w).result = .ok () := by
  obtain ⟨kinds, hkinds, hfields, hparsed⟩ := fieldKinds_of_supported hsupported
  have hnamed := d.carryOut_formNamed id w
  have hfilled := takesCalls_fillFields hd ctx kinds hparsed
  rw [hform] at hnamed
  rw [hfields] at hfilled
  rw [fillForm, Driver.carryOut_proceed_ok hnamed, hkinds]
  dsimp only
  rw [Driver.carryOut_bind, Driver.carryOut_pure, Carried.followedBy, Carried.followedBy,
    hfilled, List.append_nil, List.nil_append]
  exact ⟨rfl, rfl⟩

theorem carryOut_fillForm_of_error (ctx : Context) {id : String} {form : Form} {w : W}
    {e : FlowError} (hform : (d.act (.form id) w).1 = .ok form)
    (hkinds : fieldKinds form.fields = .error e) :
    (d.carryOut (fillForm ctx id) w).calls = [] ∧
      (d.carryOut (fillForm ctx id) w).result = .error e := by
  have hnamed := d.carryOut_formNamed id w
  rw [hform] at hnamed
  rw [fillForm, Driver.carryOut_proceed_ok hnamed, hkinds]
  exact ⟨rfl, rfl⟩

/-- On a page whose answers do not depend on what was done before, filling a form checks the types
of all fields first, and reports the first that is not supported before any call. Otherwise the run
goes on, whatever becomes of the fields, and each field takes the same calls as it would alone. A
field that cannot be filled is left as it is, and so is a checkbox whose value is no boolean; a text
is written into an element that was cleared. -/
theorem fillForm_treats_fields_apart (hd : d.IsSteady replies) (ctx : Context) (id : String)
    (form : Form) (w : W) (hform : (d.act (.form (interpolate ctx id)) w).1 = .ok form) :
    ((∃ field ∈ form.fields, ¬ field.IsSupported) →
      (d.carryOut (execute (.fillForm id) ctx) w).calls = [] ∧
      ∃ before field after, form.fields = before ++ field :: after ∧
        (∀ other ∈ before, other.IsSupported) ∧ ¬ field.IsSupported ∧
        (d.carryOut (execute (.fillForm id) ctx) w).result =
          ⟨.error (.configuration ("unsupported field type '" ++ field.typeName ++
            "' for field '" ++ field.name ++ "'")), ctx⟩) ∧
    ((∀ field ∈ form.fields, field.IsSupported) →
      (d.carryOut (execute (.fillForm id) ctx) w).result = ⟨.ok .continue, ctx⟩ ∧
      (d.carryOut (execute (.fillForm id) ctx) w).calls =
        form.fields.flatMap (fieldCalls replies ctx)) ∧
    (∀ field : FormField, ¬ IsReady replies (interpolate ctx field.selector) →
      ∀ call ∈ fieldCalls replies ctx field, changesField call = false) ∧
    (∀ field : FormField, FieldKind.parse? field.typeName = some .checkbox →
      parseCheckbox (interpolate ctx field.value) = none →
      ∀ call ∈ fieldCalls replies ctx field, changesField call = false) ∧
    (∀ (field : FormField) (kind : FieldKind), FieldKind.parse? field.typeName = some kind →
      kind ∈ [.text, .email, .password, .textarea] →
      let selector := interpolate ctx field.selector
      IsReady replies selector →
      fieldCalls replies ctx field =
        [.count selector, .isVisible selector, .isEnabled selector, .fill selector ""] ++
          if (replies (.fill selector "")).result.isOk then
            [.fill selector (interpolate ctx field.value)]
          else []) := by
  have hcarried := d.carryOut_continued ctx (fillForm ctx (interpolate ctx id)) w
  rw [execute, hcarried]
  refine ⟨?_, ?_, fun field => changesField_of_not_ready, fun field => changesField_of_not_bool, ?_⟩
  · intro hsome
    obtain ⟨before, field, after, hfields, hbefore, hfield⟩ := exists_first_unsupported hsome
    have hkinds := fieldKinds_of_unsupported after hbefore hfield
    rw [← hfields] at hkinds
    obtain ⟨hcalls, hresult⟩ := carryOut_fillForm_of_error ctx hform hkinds
    rw [hresult]
    exact ⟨hcalls, before, field, after, hfields, hbefore, hfield, rfl⟩
  · intro hsupported
    obtain ⟨hcalls, hresult⟩ := carryOut_fillForm_of_ok hd ctx hform hsupported
    rw [hresult]
    exact ⟨rfl, hcalls⟩
  · intro field kind hkind htext selector hready
    rw [fieldCalls, hkind]
    dsimp only
    rw [kindCalls, if_pos hready, checkCalls_of_ready hready]
    simp only [List.mem_cons, List.not_mem_nil, or_false] at htext
    rcases htext with rfl | rfl | rfl | rfl <;> rfl

end

/-- A form with a text, a field that is not on the page, and a checkbox without a boolean. -/
def application : Form where
  id := "apply"
  name := "Application"
  fields :=
    [⟨"name", "#name", "Anna", "text"⟩, ⟨"phone", "#phone", "555", "Text"⟩,
      ⟨"terms", "#terms", "agreed", "checkbox"⟩]

def applicationScript : Script :=
  (Script.blank.withElement "#name" ⟨1, true, true⟩).withElement "#terms" ⟨1, true, true⟩

def applicationStage : Stage :=
  { Stage.bare (scripted applicationScript []) with forms := .given [("apply", application)] }

theorem fillForm_treats_fields_apart_application :
    (sessionDriver applicationStage 0).IsSteady (scriptReplies applicationScript []) ∧
      ((sessionDriver applicationStage 0).act (.form (interpolate .empty "apply")) openScene).1 =
        .ok application ∧
      (∀ field ∈ application.fields, field.IsSupported) ∧
      ((sessionDriver applicationStage 0).carryOut (execute (.fillForm "apply") .empty)
        openScene).calls =
        [.count "#name", .isVisible "#name", .isEnabled "#name", .fill "#name" "",
          .fill "#name" "Anna", .count "#phone", .count "#terms", .isVisible "#terms",
          .isEnabled "#terms"] := by
  have hsteady : (sessionDriver applicationStage 0).IsSteady (scriptReplies applicationScript []) :=
    isSteady_scripted rfl
  have hform : ((sessionDriver applicationStage 0).act (.form (interpolate .empty "apply"))
      openScene).1 = .ok application := rfl
  have hsupported : ∀ field ∈ application.fields, field.IsSupported := by decide
  refine ⟨hsteady, hform, hsupported, ?_⟩
  rw [((fillForm_treats_fields_apart hsteady .empty "apply" application openScene hform).2.1
    hsupported).2]
  rfl

end Jobflow.Workflow
