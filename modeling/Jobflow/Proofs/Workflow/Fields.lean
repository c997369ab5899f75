import Jobflow.Proofs.Workflow.Grammar

/-!
What the readers of fields and of leaves accept. Each succeeds exactly when the
grammar allows the field or the leaf, and with what the grammar reads there.
-/

namespace Jobflow.Workflow

open Jobflow.Json
open Jobflow.Page (Readiness)
open Jobflow.Time (Duration)

/-! ### Fields -/

theorem present?_eq_none_iff {node : Node} {field : String} :
    present? node field = none ↔ Lacks node field := by
  unfold present? Lacks
  split
  · next hnull => simp [hnull]
  · next hfound =>
    refine ⟨Or.inl, ?_⟩
    intro h
    rcases h with hnone | hnull
    · exact hnone
    · exact absurd hnull hfound

theorem present?_eq_some_iff {node : Node} {field : String} {value : Value} :
    present? node field = some value ↔ Holds node field value := by
  unfold present? Holds
  split
  · next hnull => simp [hnull, eq_comm]
  · next hfound =>
    refine ⟨fun h => ⟨h, fun hnull => hfound (hnull ▸ h)⟩, And.left⟩

theorem present?_of_find? {node : Node} {field : String} {value : Value}
    (h : Dict.find? field node = some value) (hne : value ≠ .null) :
    present? node field = some value :=
  present?_eq_some_iff.mpr ⟨h, hne⟩

theorem find?_of_present? {node : Node} {field : String} {value : Value}
    (h : present? node field = some value) : Dict.find? field node = some value :=
  (present?_eq_some_iff.mp h).1

theorem optionalText_eq_ok_iff {node : Node} {field : String} {text : Option String} :
    optionalText node field = .ok text ↔ MayGiveText node field text := by
  constructor
  · intro h
    unfold optionalText at h
    split at h
    · next hlacks => cases h; exact .lacks (present?_eq_none_iff.mp hlacks)
    · next hfound => cases h; exact .text (find?_of_present? hfound)
    · cases h
  · intro h
    cases h with
    | lacks hlacks => rw [optionalText, present?_eq_none_iff.mpr hlacks]
    | text hfound => rw [optionalText, present?_of_find? hfound (by simp)]

theorem requiredText_eq_ok_iff {node : Node} {field text : String} :
    requiredText node field = .ok text ↔ GivesText node field text := by
  rw [requiredText, bind_eq_ok_iff]
  constructor
  · intro h
    obtain ⟨found, hfound, h⟩ := h
    rw [optionalText_eq_ok_iff] at hfound
    cases hfound with
    | lacks _ => cases h
    | text hfind =>
      dsimp only at h
      split at h
      · cases h
      · next hblank => cases h; exact ⟨hfind, hblank⟩
  · intro h
    obtain ⟨hfind, hblank⟩ := h
    refine ⟨some text, optionalText_eq_ok_iff.mpr (.text hfind), ?_⟩
    simp [hblank]

theorem optionalFlag_eq_ok_iff {node : Node} {field : String} {flag : Bool} :
    optionalFlag node field = .ok flag ↔ MayGiveFlag node field flag := by
  constructor
  · intro h
    unfold optionalFlag at h
    split at h
    · next hlacks => cases h; exact .lacks (present?_eq_none_iff.mp hlacks)
    · next hfound => cases h; exact .flag (find?_of_present? hfound)
    · cases h
  · intro h
    cases h with
    | lacks hlacks => rw [optionalFlag, present?_eq_none_iff.mpr hlacks]
    | flag hfound => rw [optionalFlag, present?_of_find? hfound (by simp)]

private theorem isDigit_plus : Text.isDigit '+' = false := by decide

/-- The reader of numbers accepts decimal numbers of 64 bits with an optional plus
sign. -/
theorem readU64?_eq_some_iff {text : String} {n : Nat} :
    Text.readU64? text = some n ↔ WritesNat text n ∧ n ≤ Text.maxU64 := by
  have hread (digits : List Char) :
      (if digits.isEmpty || !digits.all Text.isDigit then none
        else if Text.decimalValue digits ≤ Text.maxU64 then some (Text.decimalValue digits)
        else none) = some n ↔
      digits ≠ [] ∧ (∀ c ∈ digits, Text.isDigit c) ∧ Text.decimalValue digits = n ∧
        n ≤ Text.maxU64 := by
    grind
  unfold Text.readU64? WritesNat
  constructor
  · intro h
    split at h
    · next rest htext =>
      obtain ⟨hne, hdigits, hvalue, hbound⟩ := (hread rest).mp h
      exact ⟨⟨rest, hne, hdigits, .inr htext, hvalue⟩, hbound⟩
    · obtain ⟨hne, hdigits, hvalue, hbound⟩ := (hread _).mp h
      exact ⟨⟨_, hne, hdigits, .inl rfl, hvalue⟩, hbound⟩
  · intro h
    obtain ⟨⟨digits, hne, hdigits, htext, hvalue⟩, hbound⟩ := h
    have hsigned := (hread digits).mpr ⟨hne, hdigits, hvalue, hbound⟩
    rcases htext with htext | htext
    · rw [htext]
      split
      · have := hdigits '+' (by simp)
        simp [isDigit_plus] at this
      · exact hsigned
    · rw [htext]
      exact hsigned

theorem optionalNat_eq_ok_iff {node : Node} (hrange : Value.MembersInRange node)
    {field : String} {n : Option Nat} :
    optionalNat node field = .ok n ↔ MayGiveNat node field n := by
  constructor
  · intro h
    unfold optionalNat at h
    split at h
    · next hlacks => cases h; exact .lacks (present?_eq_none_iff.mp hlacks)
    · next k hfound =>
      have hfind := find?_of_present? hfound
      have hbound : k ≤ Text.maxU64 := Value.inRange_of_find? hrange hfind
      split at h
      · next hnonneg =>
        cases h
        refine .number ?_ (by omega)
        rw [hfind, Int.toNat_of_nonneg hnonneg]
      · cases h
    · cases h
    · next s hfound =>
      split at h
      · next m hread =>
        cases h
        obtain ⟨hwrites, hbound⟩ := readU64?_eq_some_iff.mp hread
        exact .text (find?_of_present? hfound) hwrites hbound
      · cases h
    · cases h
  · intro h
    cases h with
    | lacks hlacks => rw [optionalNat, present?_eq_none_iff.mpr hlacks]
    | number hfound _ =>
      rw [optionalNat, present?_of_find? hfound (by simp)]
      simp
    | text hfound hwrites hbound =>
      rw [optionalNat, present?_of_find? hfound (by simp)]
      simp [readU64?_eq_some_iff.mpr ⟨hwrites, hbound⟩]

theorem ofMillis_eq_iff {n : Nat} {d : Duration} :
    Duration.ofMillis n = d ↔
      d.secs * 1000000000 + d.nanos = n * 1000000 ∧ d.nanos < 1000000000 := by
  obtain ⟨secs, nanos⟩ := d
  simp only [Duration.ofMillis, Duration.mk.injEq]
  omega

theorem optionalMillis_eq_ok_iff {node : Node} (hrange : Value.MembersInRange node)
    {field : String} {d : Option Duration} :
    optionalMillis node field = .ok d ↔ MayGiveMillis node field d := by
  simp only [optionalMillis, bind_eq_ok_iff, pure_eq_ok_iff, optionalNat_eq_ok_iff hrange]
  constructor
  · intro h
    obtain ⟨n, hnat, rfl⟩ := h
    cases n with
    | none => exact .lacks hnat
    | some n =>
      obtain ⟨htotal, hnanos⟩ := ofMillis_eq_iff.mp rfl
      exact .millis hnat htotal hnanos
  · intro h
    cases h with
    | lacks hnat => exact ⟨none, hnat, rfl⟩
    | millis hnat htotal hnanos =>
      have hmillis := ofMillis_eq_iff.mpr ⟨htotal, hnanos⟩
      exact ⟨some _, hnat, congrArg some hmillis⟩

theorem nodeKind_eq_ok_iff {node : Node} {kind : String} :
    nodeKind node = .ok kind ↔ OfKind node kind := by
  unfold nodeKind OfKind
  split
  · next name hfind => simp [hfind]
  · next value hother hfind =>
    simp only [hfind, Option.some.injEq, reduceCtorEq, false_iff]
    intro h
    obtain ⟨name, rfl, -⟩ := h
    exact hother name rfl
  · next hfind => simp [hfind]

/-! ### Leaves -/

theorem OfKind.unique {node : Node} {kind other : String} (h : OfKind node kind)
    (h' : OfKind node other) : kind = other := by
  rw [← nodeKind_eq_ok_iff] at h h'
  exact Except.ok.inj (h.symm.trans h')

theorem Holds.unique {node : Node} {field : String} {value other : Value}
    (h : Holds node field value) (h' : Holds node field other) : value = other :=
  Option.some.inj (h.1.symm.trans h'.1)

theorem not_lacks_of_holds {node : Node} {field : String} {value : Value}
    (h : Holds node field value) : ¬ Lacks node field := by
  intro hlacks
  rcases hlacks with hnone | hnull
  · exact absurd (h.1.symm.trans hnone) (by simp)
  · exact h.2 (Option.some.inj (h.1.symm.trans hnull))

theorem not_holds_of_lacks {node : Node} {field : String} (h : Lacks node field)
    {value : Value} : ¬ Holds node field value :=
  fun hholds => not_lacks_of_holds hholds h

theorem lacks_or_holds (node : Node) (field : String) :
    Lacks node field ∨ ∃ value, Holds node field value := by
  cases hfield : present? node field with
  | none => exact .inl (present?_eq_none_iff.mp hfield)
  | some value => exact .inr ⟨value, present?_eq_some_iff.mp hfield⟩

@[simp] theorem located_eq_ok_iff {α : Type} {path : NodePath} {x : Except NodeFault α} {a : α} :
    located path x = .ok a ↔ x = .ok a := by
  cases x <;> simp [located]

private theorem ofName_eq_load {name : String} (hdom : name ≠ "domcontentloaded")
    (hidle : name ≠ "networkidle") : Readiness.ofName name = .load := by
  by_cases hload : name = "load"
  · rw [hload]
    rfl
  · have hnone : Readiness.named? name = none := by
      simp [Readiness.named?, Readiness.all, Readiness.name, Ne.symm hload, hdom.symm, hidle.symm]
    rw [Readiness.ofName, hnone]
    rfl

theorem ofName_eq_readinessOf (name : Option String) :
    (name.map Readiness.ofName).getD .load = readinessOf name := by
  unfold readinessOf
  split
  · rfl
  · rfl
  · next hdom hidle =>
    cases name with
    | none => rfl
    | some name =>
      exact ofName_eq_load (fun h => hdom (congrArg some h)) (fun h => hidle (congrArg some h))

theorem compileNavigate_eq_ok_iff {node : Node} {command : Command} :
    compileNavigate node = .ok command ↔
      ∃ url name, GivesText node "url" url ∧ MayGiveText node "waitUntil" name ∧
        command = .navigate url (readinessOf name) := by
  simp only [compileNavigate, bind_eq_ok_iff, pure_eq_ok_iff, requiredText_eq_ok_iff,
    optionalText_eq_ok_iff, ofName_eq_readinessOf]
  grind

theorem nonEmpty_eq_none_iff {text : Option String} : nonEmpty text = none ↔ text.getD "" = "" := by
  cases text <;> simp [nonEmpty]

theorem nonEmpty_eq_some_iff {text : Option String} {s : String} :
    nonEmpty text = some s ↔ text = some s ∧ s ≠ "" := by
  cases text with
  | none => simp [nonEmpty]
  | some t =>
    simp only [nonEmpty, Option.ite_none_left_eq_some, Option.some.injEq]
    exact ⟨fun ⟨hne, heq⟩ => ⟨heq, heq ▸ hne⟩, fun ⟨heq, hne⟩ => ⟨heq ▸ hne, heq⟩⟩

theorem nonEmpty_eq_iff_tells {given message : Option String} :
    nonEmpty given = message ↔ Tells given message := by
  constructor
  · rintro rfl
    cases hgiven : nonEmpty given with
    | none => exact .nothing (nonEmpty_eq_none_iff.mp hgiven)
    | some s =>
      obtain ⟨rfl, hne⟩ := nonEmpty_eq_some_iff.mp hgiven
      exact .message hne
  · intro h
    cases h with
    | message hne => exact nonEmpty_eq_some_iff.mpr ⟨rfl, hne⟩
    | nothing hempty => exact nonEmpty_eq_none_iff.mpr hempty

theorem waitAfter_eq_iff {delay : Option Nat} {next : Option String} {idle : Bool}
    {after : AfterClick} :
    waitAfter delay (nonEmpty next) idle = after ↔ Awaits delay next idle after := by
  constructor
  · rintro rfl
    unfold waitAfter
    split
    · exact .delay ..
    · next hnext =>
      obtain ⟨rfl, hne⟩ := nonEmpty_eq_some_iff.mp hnext
      exact .selector _ hne
    · next hnext => exact .networkIdle (nonEmpty_eq_none_iff.mp hnext)
    · next hnext => exact .nothing (nonEmpty_eq_none_iff.mp hnext)
  · intro h
    cases h with
    | delay => rfl
    | selector _ hne => rw [nonEmpty_eq_some_iff.mpr ⟨rfl, hne⟩, waitAfter]
    | networkIdle hempty => rw [nonEmpty_eq_none_iff.mpr hempty, waitAfter]
    | nothing hempty => rw [nonEmpty_eq_none_iff.mpr hempty, waitAfter]

theorem compileClick_eq_ok_iff {node : Node} (hrange : Value.MembersInRange node)
    {command : Command} :
    compileClick node = .ok command ↔
      ∃ selector timeout delay next idle after, GivesText node "selector" selector ∧
        MayGiveMillis node "customTimeout" timeout ∧
        MayGiveNat node "waitForTimeoutSeconds" delay ∧
        MayGiveText node "waitForSelector" next ∧
        MayGiveFlag node "waitForNetworkIdle" idle ∧ Awaits delay next idle after ∧
        command = .click selector timeout after := by
  simp only [compileClick, bind_eq_ok_iff, pure_eq_ok_iff, requiredText_eq_ok_iff,
    optionalText_eq_ok_iff, optionalFlag_eq_ok_iff, optionalMillis_eq_ok_iff hrange,
    optionalNat_eq_ok_iff hrange]
  constructor
  · intro h
    obtain ⟨selector, hselector, timeout, htimeout, delay, hdelay, next, hnext, idle, hidle,
      rfl⟩ := h
    exact ⟨selector, timeout, delay, next, idle, _, hselector, htimeout, hdelay, hnext, hidle,
      waitAfter_eq_iff.mp rfl, rfl⟩
  · intro h
    obtain ⟨selector, timeout, delay, next, idle, after, hselector, htimeout, hdelay, hnext, hidle,
      hafter, rfl⟩ := h
    refine ⟨selector, hselector, timeout, htimeout, delay, hdelay, next, hnext, idle, hidle, ?_⟩
    rw [waitAfter_eq_iff.mpr hafter]

theorem compileExists_eq_ok_iff {node : Node} (hrange : Value.MembersInRange node)
    {command : Command} :
    compileExists node = .ok command ↔
      ∃ selector settle, GivesText node "selector" selector ∧
        MayGiveMillis node "timeout" settle ∧ command = .elementExists selector settle := by
  simp only [compileExists, bind_eq_ok_iff, pure_eq_ok_iff, requiredText_eq_ok_iff,
    optionalMillis_eq_ok_iff hrange]
  grind

theorem compileFillForm_eq_ok_iff {node : Node} {command : Command} :
    compileFillForm node = .ok command ↔
      ∃ id, GivesText node "formId" id ∧ command = .fillForm id := by
  simp only [compileFillForm, bind_eq_ok_iff, pure_eq_ok_iff, requiredText_eq_ok_iff]
  grind

theorem compileExit_eq_ok_iff {node : Node} {command : Command} :
    compileExit node = .ok command ↔
      ∃ success given message, Dict.find? "success" node = some (.bool success) ∧
        MayGiveText node "message" given ∧ Tells given message ∧
        command = .exit success message := by
  unfold compileExit
  constructor
  · intro h
    split at h
    · next success hfind =>
      simp only [bind_eq_ok_iff, pure_eq_ok_iff, optionalText_eq_ok_iff] at h
      obtain ⟨_, hsuccess, given, hgiven, rfl⟩ := h
      cases hsuccess
      exact ⟨success, given, _, hfind, hgiven, nonEmpty_eq_iff_tells.mp rfl, rfl⟩
    · cases h
    · cases h
  · intro h
    obtain ⟨success, given, message, hfind, hgiven, htells, rfl⟩ := h
    rw [hfind]
    simp only [bind_eq_ok_iff, pure_eq_ok_iff, optionalText_eq_ok_iff]
    exact ⟨success, rfl, given, hgiven, by rw [nonEmpty_eq_iff_tells.mpr htells]⟩

theorem compileScreenshot_eq_ok_iff {node : Node} {command : Command} :
    compileScreenshot node = .ok command ↔
      (Lacks node "path" ∧ command = .screenshot defaultScreenshotPath) ∨
        ∃ path, GivesText node "path" path ∧ command = .screenshot path := by
  unfold compileScreenshot
  constructor
  · intro h
    split at h
    · next hlacks =>
      cases h
      exact .inl ⟨present?_eq_none_iff.mp hlacks, rfl⟩
    · simp only [bind_eq_ok_iff, pure_eq_ok_iff, requiredText_eq_ok_iff] at h
      obtain ⟨path, hpath, rfl⟩ := h
      exact .inr ⟨path, hpath, rfl⟩
  · intro h
    rcases h with ⟨hlacks, rfl⟩ | ⟨path, hpath, rfl⟩
    · rw [present?_eq_none_iff.mpr hlacks]
    · rw [present?_of_find? hpath.1 (by simp)]
      simp only [bind_eq_ok_iff, pure_eq_ok_iff, requiredText_eq_ok_iff]
      exact ⟨path, hpath, rfl⟩

end Jobflow.Workflow
