import Jobflow.Proofs.Workflow.InTurn
import Jobflow.Proofs.Workflow.Pages

/-!
Fatal calls: navigations, clicks, waits and screenshots. An execution in which one of them fails is
failed by the page; no node passes over such a failure, and filling a form makes no such calls.
-/

namespace Jobflow.Workflow

open Jobflow.Page (Behaviour Call PageError)
open Jobflow.Time (Duration)

/-- The calls whose failure a node does not recover from. -/
def isFatal : Call → Bool
  | .navigate .. | .click .. | .waitForSelector _ | .waitForLoadIdle | .screenshot _ => true
  | _ => false

/-- A fatal call among `calls`, the first of which came after `history`, was answered by the
failure `e`. -/
def FailedCall (page : Behaviour) (history calls : List Call) (e : PageError) : Prop :=
  ∃ before call after, calls = before ++ call :: after ∧ isFatal call = true ∧
    (page.answer (history ++ before) call).result = .error e

section
variable {page : Behaviour} {history calls later : List Call} {call wait : Call} {e : PageError}

theorem failedCall_singleton (hcall : isFatal call = true)
    (h : (page.answer history call).result = .error e) : FailedCall page history [call] e :=
  ⟨[], call, [], rfl, hcall, by rwa [List.append_nil]⟩

theorem not_failedCall_nil : ¬ FailedCall page history [] e := by
  rintro ⟨before, call, after, hcalls, -⟩
  simp at hcalls

theorem failedCall_cons :
    FailedCall page history (call :: later) e ↔
      isFatal call = true ∧ (page.answer history call).result = .error e ∨
        FailedCall page (history ++ [call]) later e := by
  constructor
  · rintro ⟨before, failed, after, hcalls, hfatal, hfailed⟩
    cases before with
    | nil =>
      obtain ⟨rfl, rfl⟩ := List.cons.inj hcalls
      rw [List.append_nil] at hfailed
      exact .inl ⟨hfatal, hfailed⟩
    | cons first before =>
      obtain ⟨rfl, hlater⟩ := List.cons.inj hcalls
      rw [List.append_cons] at hfailed
      exact .inr ⟨before, failed, after, hlater, hfatal, hfailed⟩
  · rintro (⟨hfatal, hfailed⟩ | ⟨before, failed, after, hlater, hfatal, hfailed⟩)
    · rw [← List.append_nil history] at hfailed
      exact ⟨[], call, later, rfl, hfatal, hfailed⟩
    · rw [← List.append_cons] at hfailed
      exact ⟨call :: before, failed, after, by rw [hlater, List.cons_append], hfatal, hfailed⟩

/-- A failed call is among the first calls or among those after them. -/
theorem failedCall_append :
    FailedCall page history (calls ++ later) e ↔
      FailedCall page history calls e ∨ FailedCall page (history ++ calls) later e := by
  induction calls generalizing history with
  | nil => simp [not_failedCall_nil]
  | cons call calls ih =>
    rw [List.cons_append, failedCall_cons, failedCall_cons, ih, or_assoc, List.append_assoc]
    rfl

/-- A call with a wait alongside fails when either of the two does. -/
theorem MadeWith.eq_error {result : Except PageError wait.Answer}
    (h : MadeWith page history call wait result calls) (hfailed : FailedCall page history calls e) :
    ∃ f, result = .error f := by
  cases h with
  | answered hcall hwait =>
    simp only [failedCall_cons, not_failedCall_nil, hcall, hwait, reduceCtorEq, and_false,
      or_self] at hfailed
  | _ => exact ⟨_, rfl⟩

end

variable {W α β : Type}

/-- When a fatal call of the program fails, it ends in such a way. -/
def Heeds (d : PageDriver W) (failed : α → Prop) (p : Browsing α) : Prop :=
  ∀ w e, FailedCall d.page (d.history w) (d.carryOut p w).calls e → failed (d.carryOut p w).result

/-- No fatal call of the program fails. -/
abbrev IsQuiet (d : PageDriver W) (p : Browsing α) : Prop := Heeds d (fun _ => False) p

/-- The result is a failure of the page. -/
def FailedByPage (result : Except FlowError α) : Prop := ∃ e, result = .error (.page e)

section
variable {d : PageDriver W} {failed : α → Prop} {failed' : β → Prop}

theorem Heeds.mono {failed' : α → Prop} {p : Browsing α} (hp : Heeds d failed p)
    (h : ∀ a, failed a → failed' a) : Heeds d failed' p :=
  fun w e hcall => h _ (hp w e hcall)

theorem IsQuiet.heeds {p : Browsing α} (hp : IsQuiet d p) : Heeds d failed p :=
  hp.mono fun _ => False.elim

theorem heeds_pure (a : α) : Heeds d failed (pure a) :=
  fun _ _ hcall => absurd hcall not_failedCall_nil

/-- What follows a failure passes it on, and what follows a success heeds its own calls. -/
theorem Heeds.bind {p : Browsing α} {next : α → Browsing β} (hp : Heeds d failed p)
    (hpass : ∀ a, failed a → ∀ w, failed' (d.carryOut (next a) w).result)
    (hnext : ∀ a, Heeds d failed' (next a)) : Heeds d failed' (p >>= next) := by
  intro w e hcall
  rw [Driver.carryOut_bind] at hcall ⊢
  rcases failedCall_append.mp hcall with hfirst | hlater
  · exact hpass _ (hp w e hfirst) _
  · rw [← d.history_carryOut] at hlater
    exact hnext _ _ e hlater

theorem IsQuiet.bind {p : Browsing α} {next : α → Browsing β} (hp : IsQuiet d p)
    (hnext : ∀ a, Heeds d failed' (next a)) : Heeds d failed' (p >>= next) :=
  Heeds.bind hp (fun _ => False.elim) hnext

theorem isQuiet_onPage {call : Call} (hcall : isFatal call = false) : IsQuiet d (onPage call) := by
  intro w e hfailed
  rw [d.carryOut_onPage] at hfailed
  simp [failedCall_cons, not_failedCall_nil, hcall] at hfailed

/-- An operation that the page has nothing to do with. -/
theorem isQuiet_offPage {op : browsing.Op}
    (h : ∀ history, historyAfter d.page history op = history) : IsQuiet d (.step op .done) := by
  intro w e hfailed
  rw [d.carryOut_offPage op (h _)] at hfailed
  exact not_failedCall_nil hfailed

theorem isQuiet_proceed {ε : Type} {step : Browsing (Except ε α)}
    {next : α → Browsing (Except ε β)} (hstep : IsQuiet d step) (hnext : ∀ a, IsQuiet d (next a)) :
    IsQuiet d (proceed step next) := by
  refine hstep.bind fun result => ?_
  cases result with
  | ok a => exact hnext a
  | error e => exact heeds_pure _

theorem heeds_proceed {step : Browsing (Except FlowError α)}
    {next : α → Browsing (Except FlowError β)} (hstep : Heeds d FailedByPage step)
    (hnext : ∀ a, Heeds d FailedByPage (next a)) : Heeds d FailedByPage (proceed step next) := by
  refine hstep.bind ?_ fun result => ?_
  · rintro _ ⟨e, rfl⟩ w
    exact ⟨e, rfl⟩
  · cases result with
    | ok a => exact hnext a
    | error e => exact heeds_pure _

theorem heeds_ite {c : Prop} [Decidable c] {step other : Browsing α}
    (hstep : Heeds d failed step) (hother : Heeds d failed other) :
    Heeds d failed (if c then step else other) := by
  split
  · exact hstep
  · exact hother

/-! ### Steps -/

/-- What a page fails with, a step fails with by the page. -/
theorem heeds_lifted {step : Browsing (Except PageError α)}
    (hstep : Heeds d (fun result => ∃ e, result = .error e) step) :
    Heeds d FailedByPage (lifted step) := by
  refine hstep.bind ?_ fun _ => heeds_pure _
  rintro _ ⟨e, rfl⟩ w
  exact ⟨e, rfl⟩

theorem heeds_onPage (call : Call) : Heeds d FailedByPage (lifted (onPage call)) := by
  apply heeds_lifted
  intro w e hfailed
  rw [d.carryOut_onPage] at hfailed ⊢
  rcases failedCall_cons.mp hfailed with ⟨-, hanswer⟩ | hlater
  · exact ⟨e, hanswer⟩
  · exact absurd hlater not_failedCall_nil

theorem heeds_clickAwaiting (selector : String) (timeout : Option Duration) (next : String) :
    Heeds d FailedByPage (lifted (clickAwaiting selector timeout next)) := by
  apply heeds_lifted
  intro w e hfailed
  rw [Driver.carryOut_clickAwaiting] at hfailed ⊢
  exact (d.madeWith_clickAwaiting selector timeout next w).eq_error hfailed

theorem heeds_clickSettling (selector : String) (timeout : Option Duration) :
    Heeds d FailedByPage (lifted (clickSettling selector timeout)) := by
  apply heeds_lifted
  intro w e hfailed
  rw [Driver.carryOut_clickSettling] at hfailed ⊢
  exact (d.madeWith_clickSettling selector timeout w).eq_error hfailed

theorem heeds_click (ctx : Context) (selector : String) (timeout : Option Duration)
    (after : AfterClick) : Heeds d FailedByPage (click ctx selector timeout after) := by
  have hplain := heeds_onPage (d := d) (.click selector timeout)
  cases after with
  | nothing => exact hplain
  | delay duration =>
    have hsleep : IsQuiet d (sleep duration) := isQuiet_offPage fun _ => rfl
    exact heeds_proceed hplain fun _ => hsleep.bind fun _ => heeds_pure _
  | networkIdle => exact heeds_clickSettling selector timeout
  | selector next =>
    apply heeds_ite hplain
    exact heeds_proceed (heeds_clickAwaiting _ _ _) fun _ => heeds_pure _

theorem heeds_takeScreenshot (ctx : Context) (pathTemplate : String) :
    Heeds d FailedByPage (takeScreenshot ctx pathTemplate) := by
  have hname : IsQuiet d freshName := isQuiet_offPage fun _ => rfl
  have hmake (path : Files.Path) : IsQuiet d (makeDirectories path) := isQuiet_offPage fun _ => rfl
  refine hname.bind fun name => heeds_ite (heeds_onPage _) ?_
  refine (hmake _).bind fun made => ?_
  cases made with
  | ok => exact heeds_onPage _
  | error cause => exact heeds_pure _

theorem isQuiet_fillElement (kind : FieldKind) (selector value : String) :
    IsQuiet d (fillElement kind selector value) := by
  cases kind with
  | checkbox =>
    unfold fillElement
    cases parseCheckbox value with
    | none => exact heeds_pure _
    | some checked =>
      cases checked with
      | true => exact isQuiet_onPage rfl
      | false => exact isQuiet_onPage rfl
  | select => exact isQuiet_onPage rfl
  | radio => exact isQuiet_onPage rfl
  | file => exact (isQuiet_onPage rfl).bind fun _ => heeds_pure _
  | _ => exact isQuiet_proceed (isQuiet_onPage rfl) fun _ => isQuiet_onPage rfl

theorem isQuiet_fillField (ctx : Context) (field : FormField) (kind : FieldKind) :
    IsQuiet d (fillField ctx field kind) := by
  refine isQuiet_proceed (isQuiet_onPage rfl) fun (count : Nat) => ?_
  refine heeds_ite (heeds_pure _) ?_
  refine isQuiet_proceed (isQuiet_onPage rfl) fun (visible : Bool) => ?_
  refine isQuiet_proceed (isQuiet_onPage rfl) fun (enabled : Bool) => ?_
  exact heeds_ite (isQuiet_fillElement _ _ _) (heeds_pure _)

theorem isQuiet_fillFields (ctx : Context) (fields : List (FormField × FieldKind)) :
    IsQuiet d (fillFields ctx fields) := by
  induction fields with
  | nil => exact heeds_pure _
  | cons field rest ih => exact (isQuiet_fillField ctx field.1 field.2).bind fun _ => ih

theorem isQuiet_fillForm (ctx : Context) (id : String) : IsQuiet d (fillForm ctx id) := by
  have hform : IsQuiet d (formNamed id) := isQuiet_offPage fun _ => rfl
  refine isQuiet_proceed hform fun form => ?_
  cases fieldKinds form.fields with
  | error e => exact heeds_pure _
  | ok fields => exact (isQuiet_fillFields ctx fields).bind fun _ => heeds_pure _

/-! ### Trees -/

/-- The execution is failed by the page when a fatal call of its own fails. -/
abbrev EndsHeeding (d : PageDriver W) (p : Browsing Ended) : Prop :=
  Heeds d (fun ended => FailedByPage ended.result) p

theorem endsHeeding_continued {ctx : Context} {step : Browsing (Except FlowError Unit)}
    (hstep : Heeds d FailedByPage step) : EndsHeeding d (continued ctx step) := by
  refine hstep.bind ?_ fun result => ?_
  · rintro _ ⟨e, rfl⟩ w
    exact ⟨e, rfl⟩
  · cases result with
    | ok => exact heeds_pure _
    | error e => exact heeds_pure _

theorem isQuiet_judge (ctx : Context) (selector : String) (settle : Option Duration) :
    IsQuiet d (judge ctx selector settle) := by
  have hcount : IsQuiet d (onPage (.count (interpolate ctx selector))) := isQuiet_onPage rfl
  cases settle with
  | none => exact hcount.bind fun _ => heeds_pure _
  | some duration =>
    have hsleep : IsQuiet d (sleep duration) := isQuiet_offPage fun _ => rfl
    exact hsleep.bind fun _ => hcount.bind fun _ => heeds_pure _

theorem endsHeeding_inTurn {first next : Context → Browsing Ended} {ctx : Context}
    (hfirst : EndsHeeding d (first ctx)) (hnext : ∀ middle, EndsHeeding d (next middle)) :
    EndsHeeding d (inTurn first next ctx) := by
  refine hfirst.bind ?_ fun ended => ?_
  · rintro ended ⟨e, hended⟩ w
    have hstop : ended.result ≠ .ok .continue := by simp [hended]
    rw [Ended.andThen_of_ne hstop, Driver.carryOut_pure]
    exact ⟨e, hended⟩
  · by_cases hgo : ended.result = .ok .continue
    · obtain ⟨result, middle⟩ := ended
      obtain rfl : result = .ok .continue := hgo
      exact hnext middle
    · rw [Ended.andThen_of_ne hgo]
      exact heeds_pure _

theorem endsHeeding_byVerdict {whenTrue whenFalse : Context → Browsing Ended} (ctx : Context)
    (htrue : EndsHeeding d (whenTrue ctx)) (hfalse : EndsHeeding d (whenFalse ctx)) :
    EndsHeeding d (byVerdict whenTrue whenFalse ctx) := by
  unfold byVerdict
  split
  · exact htrue
  · exact hfalse
  · exact heeds_pure _

theorem endsHeeding_leaf (d : PageDriver W) {command : Command} (hleaf : command.isLeaf)
    (ctx : Context) : EndsHeeding d (execute command ctx) := by
  cases command with
  | sequence | ifElse => cases hleaf
  | navigate url readiness =>
    rw [execute]
    exact endsHeeding_continued (heeds_onPage _)
  | click selector timeout after =>
    rw [execute]
    exact endsHeeding_continued (heeds_click ctx _ timeout after)
  | elementExists selector settle =>
    rw [execute]
    exact (isQuiet_judge ctx selector settle).heeds
  | fillForm id =>
    rw [execute]
    exact endsHeeding_continued (isQuiet_fillForm ctx _).heeds
  | exit success message =>
    rw [execute]
    exact heeds_pure _
  | screenshot pathTemplate =>
    rw [execute]
    exact endsHeeding_continued (heeds_takeScreenshot ctx pathTemplate)

theorem compositional_endsHeeding (d : PageDriver W) :
    Compositional fun run => ∀ ctx, EndsHeeding d (run ctx) where
  empty _ := heeds_pure _
  sequence hfirst hnext ctx := endsHeeding_inTurn (hfirst ctx) hnext
  branch hcondition htrue hfalse _ := endsHeeding_inTurn (hcondition _) fun middle =>
    endsHeeding_byVerdict middle (htrue middle) (hfalse middle)
  leaf _ := endsHeeding_leaf d

/-- An execution in which a fatal call fails is failed by the page. -/
theorem endsHeeding_execute (d : PageDriver W) (command : Command) (ctx : Context) :
    EndsHeeding d (execute command ctx) :=
  (compositional_endsHeeding d).execute command ctx

end

end Jobflow.Workflow
