import Jobflow.Browser.Script
import Jobflow.Proofs.Browser.Literals

/-!
The scripts for a page, read as JavaScript. A script is a fixed text with string literals at fixed
places, and each literal holds a selector or a value: whatever these are, they are read as the value
of their literal, and all that is around them is read as if nothing stood there.
-/

namespace Jobflow.Browser.Script

open Jobflow.Json (literal literalChars escapedChar)

/-! ### Code and literals -/

/-- A part of a script: a character of code, or a string literal with its value. -/
inductive Piece where
  | code (c : Char)
  | text (units : List Nat)
  deriving DecidableEq

/-- A character that is code where no literal is open. Comments, regular expressions and templates
start with one of those left out, and an identifier may hold a backslash. -/
def isCode (c : Char) : Bool :=
  !(['"', '\'', '\x60', '/', '\\', '<', '-'].contains c)

/-- The pieces of a script. Nothing is read from a script with a comment, a regular expression or a
template in it. -/
def readPieces (cs : List Char) : Option (List Piece) :=
  match cs with
  | [] => some []
  | c :: rest =>
    if isCode c then (readPieces rest).map (.code c :: ·)
    else match _hread : readLiteral (c :: rest) with
      | some (us, after) => (readPieces after).map (.text us :: ·)
      | none => none
termination_by cs.length
decreasing_by
  · exact Nat.lt_succ_self _
  · exact readLiteral_length _hread

/-- The text is read as these pieces wherever it stands, and reading goes on behind it. -/
def Reads (text : List Char) (pieces : List Piece) : Prop :=
  ∀ rest, readPieces (text ++ rest) = (readPieces rest).map (pieces ++ ·)

namespace Reads

variable {text text' : List Char} {pieces pieces' : List Piece}

theorem nil : Reads [] [] := fun rest => by simp

theorem append (h : Reads text pieces) (h' : Reads text' pieces') :
    Reads (text ++ text') (pieces ++ pieces') := by
  intro rest
  rw [List.append_assoc, h, h', Option.map_map]
  simp [Function.comp_def]

theorem code {c : Char} (h : isCode c = true) : Reads [c] [.code c] := by
  intro rest
  rw [List.singleton_append, readPieces, if_pos h]
  rfl

/-- What is read as a literal up to a text that is read as pieces. -/
theorem literal_append {c : Char} {cs : List Char} {us : List Nat} (hopen : isCode c = false)
    (hread : ∀ rest, readLiteral (c :: (cs ++ rest)) = some (us, text ++ rest))
    (h : Reads text pieces) : Reads (c :: cs) (.text us :: pieces) := by
  intro rest
  rw [List.cons_append, readPieces, if_neg (by simp [hopen])]
  split
  · next vs after hfound =>
    obtain ⟨rfl, rfl⟩ := Prod.mk.inj (Option.some.inj ((hread rest).symm.trans hfound))
    rw [h, Option.map_map]
    rfl
  · next hfound => exact absurd ((hread rest).symm.trans hfound) nofun

theorem literal (s : String) : Reads (literalChars s) [.text (units s)] :=
  have hread (rest : List Char) : readLiteral (literalChars s ++ rest) =
      some (units s, [] ++ rest) := readLiteral_literalChars s rest
  literal_append (by decide) hread nil

theorem readPieces_eq (h : Reads text pieces) : readPieces text = some pieces := by
  have hread := h []
  rw [List.append_nil] at hread
  rw [hread, readPieces]
  simp

end Reads

/-! ### Fixed texts -/

/-- A text of code and literals between single quotation marks, without escapes. -/
def isFixed : Bool → List Char → Bool
  | quoted, [] => !quoted
  | false, c :: cs => if c == '\'' then isFixed true cs else isCode c && isFixed false cs
  | true, c :: cs =>
    if c == '\'' then isFixed false cs
    else c != '\\' && c != '\n' && c != '\r' && isFixed true cs

/-- Where no literal is open the text is read as pieces. Where one is open it is read to its end,
and the rest as pieces. -/
theorem reads_of_isFixed (cs : List Char) :
    (isFixed false cs → ∃ pieces, Reads cs pieces) ∧
      (isFixed true cs → ∃ us text pieces, Reads text pieces ∧
        ∀ rest, readString '\'' (cs ++ rest) = some (us, text ++ rest)) := by
  induction cs with
  | nil => exact ⟨fun _ => ⟨[], .nil⟩, nofun⟩
  | cons c cs ih =>
    constructor
    · intro h
      rw [isFixed] at h
      split at h
      · next hquote =>
        obtain rfl := beq_iff_eq.mp hquote
        obtain ⟨us, text, pieces, htext, hread⟩ := ih.2 h
        exact ⟨_, .literal_append (by decide) hread htext⟩
      · obtain ⟨hc, hcs⟩ := Bool.and_eq_true_iff.mp h
        obtain ⟨pieces, hpieces⟩ := ih.1 hcs
        exact ⟨_, (Reads.code hc).append hpieces⟩
    · intro h
      rw [isFixed] at h
      split at h
      · next hquote =>
        obtain rfl := beq_iff_eq.mp hquote
        obtain ⟨pieces, hpieces⟩ := ih.1 h
        exact ⟨[], cs, pieces, hpieces, fun rest => readString_quote '\'' (cs ++ rest)⟩
      · next hquote =>
        simp only [Bool.and_eq_true, bne_iff_ne] at h
        obtain ⟨⟨⟨hbackslash, hline⟩, hreturn⟩, hcs⟩ := h
        obtain ⟨us, text, pieces, htext, hread⟩ := ih.2 hcs
        refine ⟨pointUnits c.toNat ++ us, text, pieces, htext, fun rest => ?_⟩
        rw [List.cons_append,
          readString_plain (mt beq_iff_eq.mpr hquote) hbackslash hline hreturn, hread]
        rfl

/-- The text is read as the same pieces wherever it stands. -/
def Fixed (s : String) : Prop := ∃ pieces, Reads s.toList pieces

namespace Fixed

theorem of_toList {s : String} (h : isFixed false s.toList = true) : Fixed s :=
  (reads_of_isFixed s.toList).1 h

theorem append {s t : String} (hs : Fixed s) (ht : Fixed t) : Fixed (s ++ t) := by
  obtain ⟨ps, hps⟩ := hs
  obtain ⟨qs, hqs⟩ := ht
  refine ⟨ps ++ qs, ?_⟩
  rw [String.toList_append]
  exact hps.append hqs

theorem empty : Fixed "" := ⟨[], .nil⟩

theorem lines {body : List String} (h : ∀ line ∈ body, Fixed line) : Fixed (lines body) := by
  induction body with
  | nil => exact empty
  | cons line body ih =>
    obtain ⟨hline, hbody⟩ := List.forall_mem_cons.mp h
    cases body with
    | nil =>
      rw [Script.lines, String.intercalate_singleton]
      exact hline
    | cons next body =>
      rw [Script.lines, String.intercalate_cons_cons]
      exact (hline.append (of_toList (by decide))).append (ih hbody)

end Fixed

/-- Fixed texts, found to be so one by one. -/
theorem fixed_of_all {texts : List String}
    (h : texts.all (fun text => isFixed false text.toList) = true) : ∀ text ∈ texts, Fixed text :=
  fun text htext => .of_toList (List.all_eq_true.mp h text htext)

/-! ### Templates -/

/-- A fixed text with the pieces it is read as. -/
structure Part where
  text : List Char
  pieces : List Piece
  reads : Reads text pieces

/-- A fixed text as it is read. -/
def Part.of (s : String) (h : Fixed s) : Part where
  text := s.toList
  pieces := (readPieces s.toList).getD []
  reads := by
    obtain ⟨pieces, hpieces⟩ := h
    rwa [hpieces.readPieces_eq]

/-- Fixed texts with a place for a literal between each two. -/
inductive Template where
  | last (part : Part)
  | place (part : Part) (rest : Template)

namespace Template

def places : Template → Nat
  | last _ => 0
  | place _ rest => rest.places + 1

/-- The text with the literals of these values in its places. -/
def text : Template → List String → List Char
  | place part rest, value :: values =>
    part.text ++ (literal value).toList ++ rest.text values
  | last part, _ | place part _, [] => part.text

/-- The pieces of the fixed texts, with these values in its places. -/
def pieces : Template → List String → List Piece
  | place part rest, value :: values =>
    part.pieces ++ .text (units value) :: rest.pieces values
  | last part, _ | place part _, [] => part.pieces

theorem reads (t : Template) (values : List String) : Reads (t.text values) (t.pieces values) := by
  induction t generalizing values with
  | last part => exact part.reads
  | place part rest ih =>
    cases values with
    | nil => exact part.reads
    | cons value values =>
      have hliteral : Reads (literal value).toList [.text (units value)] := by
        rw [Json.literal, String.toList_ofList]
        exact .literal value
      rw [text, pieces, List.append_assoc]
      exact part.reads.append (hliteral.append (ih values))

theorem text_injective {t : Template} {values values' : List String}
    (hlength : values.length = t.places) (hlength' : values'.length = t.places)
    (h : t.text values = t.text values') : values = values' := by
  induction t generalizing values values' with
  | last part => rw [List.length_eq_zero_iff.mp hlength, List.length_eq_zero_iff.mp hlength']
  | place part rest ih =>
    obtain ⟨value, values, rfl⟩ := List.exists_cons_of_length_eq_add_one hlength
    obtain ⟨value', values', rfl⟩ := List.exists_cons_of_length_eq_add_one hlength'
    simp only [text, List.append_assoc, List.append_cancel_left_eq, Json.literal,
      String.toList_ofList] at h
    obtain ⟨rfl, hrest⟩ := literalChars_append h
    rw [ih (Nat.succ.inj hlength) (Nat.succ.inj hlength') hrest]

/-- The script is the template with the literals of these values in its places, one in each, and is
read as the pieces of the template with the values between them. -/
structure Writes (t : Template) (values : List String) (script : String) : Prop where
  length : values.length = t.places
  text : script.toList = t.text values
  pieces : readPieces script.toList = some (t.pieces values)

theorem Writes.of_text {t : Template} {values : List String} {script : String}
    (hlength : values.length = t.places) (htext : script.toList = t.text values) :
    t.Writes values script :=
  ⟨hlength, htext, by rw [htext, (t.reads values).readPieces_eq]⟩

theorem Writes.unique {t : Template} {values values' : List String} {script : String}
    (h : t.Writes values script) (h' : t.Writes values' script) : values = values' :=
  text_injective h.length h'.length (h.text.symm.trans h'.text)

theorem injective {t : Template} {script : String → String}
    (h : ∀ value, t.Writes [value] (script value)) : Function.Injective script := by
  intro value value' heq
  exact List.singleton_inj.mp ((h value).unique (heq ▸ h value'))

theorem injective₂ {t : Template} {script : String → String → String}
    (h : ∀ selector value, t.Writes [selector, value] (script selector value))
    (selector value selector' value' : String)
    (heq : script selector value = script selector' value') :
    selector = selector' ∧ value = value' := by
  have hvalues := (h selector value).unique (heq ▸ h selector' value')
  rw [List.cons.injEq, List.singleton_inj] at hvalues
  exact hvalues

/-- The template with these fixed texts. -/
def ofTexts (first : String) :
    (rest : List String) → (∀ text ∈ first :: rest, Fixed text) → Template
  | [], h => .last (.of first (h first List.mem_cons_self))
  | next :: rest, h =>
    .place (.of first (h first List.mem_cons_self))
      (ofTexts next rest fun text htext => h text (List.mem_cons_of_mem first htext))

/-- A script with one value between two texts. -/
theorem writes_between {before after : String} (h : ∀ text ∈ [before, after], Fixed text)
    (value : String) :
    (ofTexts before [after] h).Writes [value] (before ++ literal value ++ after) := by
  refine .of_text rfl ?_
  simp only [String.toList_append]
  rfl

/-- A script with two values among three texts. -/
theorem writes_among {before between after : String}
    (h : ∀ text ∈ [before, between, after], Fixed text) (value value' : String) :
    (ofTexts before [between, after] h).Writes [value, value']
      (before ++ literal value ++ (between ++ literal value' ++ after)) := by
  refine .of_text rfl ?_
  simp only [String.toList_append]
  rfl

end Template

/-! ### The scripts -/

/-- The lines up to a text in the middle of a line, the text, and the lines from there on. -/
theorem lines_split (before after : List String) (left middle right : String) :
    lines (before ++ (left ++ middle ++ right) :: after) =
      lines (before ++ [left]) ++ middle ++ lines (right :: after) := by
  induction before with
  | nil =>
    simp only [lines, List.nil_append, String.intercalate_singleton, String.append_assoc,
      String.intercalate_cons_append]
  | cons line before ih =>
    simp only [lines, List.cons_append] at ih ⊢
    rw [String.intercalate_cons_of_ne_nil (by simp),
      String.intercalate_cons_of_ne_nil (by simp), ih]
    simp only [String.append_assoc]

/-- The template of a script that counts elements. -/
def countTemplate : Template :=
  .ofTexts "document.querySelectorAll(" [").length"] (fixed_of_all (by decide))

theorem writes_count (selector : String) : countTemplate.Writes [selector] (count selector) :=
  Template.writes_between _ selector

/-- The lines around the call of a script, and around the selector of its element. -/
theorem fixed_call : Fixed "(() => \x7b" ∧ Fixed "\x7d)()" ∧
    Fixed "  const el = document.querySelector(" ∧ Fixed ");" := by
  refine ⟨?_, ?_, ?_, ?_⟩ <;> exact .of_toList (by decide)

/-- A script about one element, up to its selector. -/
def opening : String := lines ["(() => \x7b", "  const el = document.querySelector("]

theorem fixed_opening : Fixed opening := by
  obtain ⟨hopen, -, helement, -⟩ := fixed_call
  exact .lines (by simp [hopen, helement])

theorem called_element (selector : String) (body : List String) :
    called (element selector :: body) =
      opening ++ literal selector ++ lines (");" :: (body ++ ["\x7d)()"])) :=
  lines_split ["(() => \x7b"] (body ++ ["\x7d)()"]) _ _ _

/-- The template of a script about one element, with the selector as its only value and these lines
after the first. -/
def aboutElement (body : List String) (hbody : ∀ line ∈ body, Fixed line) : Template :=
  .ofTexts opening [lines (");" :: (body ++ ["\x7d)()"]))] (by
    obtain ⟨-, hclose, -, hparen⟩ := fixed_call
    refine List.forall_mem_cons.mpr
      ⟨fixed_opening, List.forall_mem_singleton.mpr (.lines ?_)⟩
    simpa [or_imp, forall_and, hparen, hclose] using hbody)

theorem writes_aboutElement {body : List String} (hbody : ∀ line ∈ body, Fixed line)
    (selector : String) :
    (aboutElement body hbody).Writes [selector] (called (element selector :: body)) := by
  rw [called_element]
  exact Template.writes_between _ selector

/-- The template of a script about one element, with another value further down, between `left` and
`right` in the middle of a line. -/
def aboutElementAnd (before : List String) (left right : String) (after : List String)
    (hbefore : ∀ line ∈ before, Fixed line) (hleft : Fixed left) (hright : Fixed right)
    (hafter : ∀ line ∈ after, Fixed line) : Template :=
  .ofTexts opening [lines (");" :: before ++ [left]), lines (right :: (after ++ ["\x7d)()"]))] (by
    obtain ⟨-, hclose, -, hparen⟩ := fixed_call
    refine List.forall_mem_cons.mpr ⟨fixed_opening,
      List.forall_mem_cons.mpr ⟨.lines ?_, List.forall_mem_singleton.mpr (.lines ?_)⟩⟩
    · simpa [or_imp, forall_and, hparen, hleft] using hbefore
    · simpa [or_imp, forall_and, hright, hclose] using hafter)

theorem writes_aboutElementAnd {before after : List String} {left right : String}
    (hbefore : ∀ line ∈ before, Fixed line) (hleft : Fixed left) (hright : Fixed right)
    (hafter : ∀ line ∈ after, Fixed line) (selector value : String) :
    (aboutElementAnd before left right after hbefore hleft hright hafter).Writes [selector, value]
      (called (element selector :: (before ++ (left ++ literal value ++ right) :: after))) := by
  have hscript :
      lines (");" :: (before ++ (left ++ literal value ++ right) :: after ++ ["\x7d)()"])) =
        lines (");" :: before ++ [left]) ++ literal value ++
          lines (right :: (after ++ ["\x7d)()"])) := by
    rw [List.append_assoc, List.cons_append, ← List.cons_append, lines_split]
  rw [called_element, hscript]
  exact Template.writes_among _ selector value

def isVisibleTemplate : Template :=
  aboutElement [
    "  if (!el) return false;",
    "  const style = window.getComputedStyle(el);",
    "  const rect = el.getBoundingClientRect();",
    "  return style.visibility !== 'hidden' && style.display !== 'none' && rect.width > 0 && " ++
      "rect.height > 0;"] (fixed_of_all (by decide))

def isEnabledTemplate : Template :=
  aboutElement [
    "  if (!el) return false;",
    "  if (el.disabled) return false;",
    "  const fieldset = el.closest('fieldset[disabled]');",
    "  return !fieldset;"] (fixed_of_all (by decide))

def fillTemplate : Template :=
  aboutElementAnd ["  if (!el) return 'missing';", "  el.focus();"] "  const value = " ";" [
    "  if (el instanceof HTMLInputElement || el instanceof HTMLTextAreaElement) \x7b",
    "    const proto = el instanceof HTMLTextAreaElement ? HTMLTextAreaElement.prototype : " ++
      "HTMLInputElement.prototype;",
    "    const descriptor = Object.getOwnPropertyDescriptor(proto, 'value');",
    "    descriptor.set.call(el, '');",
    "    el.dispatchEvent(new Event('input', \x7b bubbles: true \x7d));",
    "    descriptor.set.call(el, value);",
    "  \x7d else if (el.isContentEditable) \x7b",
    "    el.textContent = value;",
    "  \x7d else \x7b",
    "    return 'not-fillable';",
    "  \x7d",
    "  el.dispatchEvent(new Event('input', \x7b bubbles: true \x7d));",
    "  el.dispatchEvent(new Event('change', \x7b bubbles: true \x7d));",
    "  return 'ok';"]
    (fixed_of_all (by decide)) (.of_toList (by decide)) (.of_toList (by decide))
    (fixed_of_all (by decide))

def selectOptionTemplate : Template :=
  aboutElementAnd ["  if (!el) return 'missing';",
    "  if (!(el instanceof HTMLSelectElement)) return 'not-a-select';"] "  const wanted = " ";" [
    "  const options = Array.from(el.options);",
    "  const option = options.find(o => o.value === wanted) || " ++
      "options.find(o => o.label === wanted);",
    "  if (!option) return 'no-such-option';",
    "  el.value = option.value;",
    "  option.selected = true;",
    "  el.dispatchEvent(new Event('input', \x7b bubbles: true \x7d));",
    "  el.dispatchEvent(new Event('change', \x7b bubbles: true \x7d));",
    "  return 'ok';"]
    (fixed_of_all (by decide)) (.of_toList (by decide)) (.of_toList (by decide))
    (fixed_of_all (by decide))

def setCheckedTemplate (checked : Bool) : Template :=
  aboutElement [
    "  if (!el) return 'missing';",
    "  if (el.checked !== " ++ toString checked ++ ") el.click();",
    "  return el.checked === " ++ toString checked ++ " ? 'ok' : 'state-unchanged';"] (by
    cases checked <;> exact fixed_of_all (by decide))

theorem dispatch_eq :
    dispatch "    " "input" = "    el.dispatchEvent(new Event('input', \x7b bubbles: true \x7d));" ∧
    dispatch "  " "input" = "  el.dispatchEvent(new Event('input', \x7b bubbles: true \x7d));" ∧
    dispatch "  " "change" =
      "  el.dispatchEvent(new Event('change', \x7b bubbles: true \x7d));" := by
  decide

theorem writes_isVisible (selector : String) :
    isVisibleTemplate.Writes [selector] (isVisible selector) := writes_aboutElement _ selector

theorem writes_isEnabled (selector : String) :
    isEnabledTemplate.Writes [selector] (isEnabled selector) := writes_aboutElement _ selector

theorem writes_fill (selector value : String) :
    fillTemplate.Writes [selector, value] (fill selector value) := by
  obtain ⟨hindented, hinput, hchange⟩ := dispatch_eq
  rw [fill, hindented, hinput, hchange]
  exact writes_aboutElementAnd _ _ _ _ selector value

theorem writes_selectOption (selector value : String) :
    selectOptionTemplate.Writes [selector, value] (selectOption selector value) := by
  obtain ⟨-, hinput, hchange⟩ := dispatch_eq
  rw [selectOption, hinput, hchange]
  exact writes_aboutElementAnd _ _ _ _ selector value

theorem writes_setChecked (checked : Bool) (selector : String) :
    (setCheckedTemplate checked).Writes [selector] (setChecked selector checked) :=
  writes_aboutElement _ selector

/-- The wanted state stands in a script behind the selector. -/
theorem exists_setChecked : ∃ (before between : String) (after : Bool → String),
    ∀ selector checked, setChecked selector checked =
      before ++ literal selector ++ (between ++ toString checked ++ after checked) :=
  ⟨_, _, _, fun selector _ => (called_element selector _).trans
    (congrArg _ (lines_split [");", "  if (!el) return 'missing';"] _ _ _ _))⟩

/-- A script that changes a box tells the selector and the wanted state. -/
theorem setChecked_injective {selector selector' : String} {checked checked' : Bool}
    (h : setChecked selector checked = setChecked selector' checked') :
    selector = selector' ∧ checked = checked' := by
  obtain ⟨before, between, after, hscript⟩ := exists_setChecked
  simp only [hscript, ← String.toList_inj, String.toList_append, List.append_assoc,
    List.append_cancel_left_eq, Json.literal, String.toList_ofList] at h
  obtain ⟨rfl, hrest⟩ := literalChars_append h
  have hfirst : (toString checked).toList.head? = (toString checked').toList.head? := by
    have hhead := congrArg List.head? (List.append_cancel_left hrest)
    cases checked <;> cases checked' <;> exact hhead
  refine ⟨rfl, ?_⟩
  cases checked <;> cases checked' <;> first | rfl | exact absurd hfirst (by decide)

/-- A selector or a value stays within its literal. The literal of a text is read as the text by the
rules of JavaScript and by those of JSON, and reading stops right behind it. So each script is read
as the pieces of its template with the selector and the value at its places, and it tells which
these are. -/
theorem values_stay_in_literals :
    (∀ (raw : String) (rest : List Char),
      readLiteral ((literal raw).toList ++ rest) = some (units raw, rest) ∧
      ∀ fuel, Json.scanValue (fuel + 1) ((literal raw).toList ++ rest) =
        ⟨.string (.ok raw), some rest⟩) ∧
    Function.Injective units ∧
    (∀ selector, countTemplate.Writes [selector] (count selector)) ∧
    (∀ selector, isVisibleTemplate.Writes [selector] (isVisible selector)) ∧
    (∀ selector, isEnabledTemplate.Writes [selector] (isEnabled selector)) ∧
    (∀ selector value, fillTemplate.Writes [selector, value] (fill selector value)) ∧
    (∀ selector value, selectOptionTemplate.Writes [selector, value]
      (selectOption selector value)) ∧
    (∀ checked selector,
      (setCheckedTemplate checked).Writes [selector] (setChecked selector checked)) ∧
    Function.Injective count ∧ Function.Injective isVisible ∧ Function.Injective isEnabled ∧
    (∀ selector value selector' value', fill selector value = fill selector' value' →
      selector = selector' ∧ value = value') ∧
    (∀ selector value selector' value',
      selectOption selector value = selectOption selector' value' →
        selector = selector' ∧ value = value') ∧
    ∀ selector checked selector' checked',
      setChecked selector checked = setChecked selector' checked' →
        selector = selector' ∧ checked = checked' := by
  refine ⟨fun raw rest => ?_, units_injective, writes_count, writes_isVisible, writes_isEnabled,
    writes_fill, writes_selectOption, writes_setChecked, Template.injective writes_count,
    Template.injective writes_isVisible, Template.injective writes_isEnabled,
    Template.injective₂ writes_fill, Template.injective₂ writes_selectOption,
    fun _ _ _ _ => setChecked_injective⟩
  rw [literal, String.toList_ofList]
  exact ⟨readLiteral_literalChars raw rest, fun fuel => Json.scanValue_string raw fuel rest⟩

end Jobflow.Browser.Script
