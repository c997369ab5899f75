import Jobflow.Json.Print
import Jobflow.Json.Read
import Jobflow.Proofs.Text.Digits

/-!
The text of a value holds the value: scanning it gives the document of the value, every
string unescaped to what it was, and goes on with the text that follows. A blank text holds none.
-/

namespace Jobflow.Json

open Text (hexDigit hexDigits)

/-! ### Strings -/

theorem scanString_backslash (cs : List Char) :
    scanString .plain ('\\' :: cs) = scanString .escape cs := by
  rw [scanString]
  rfl

theorem scanString_escape {c d : Char} (h : simpleEscape? c = some d) (cs : List Char) :
    scanString .plain ('\\' :: c :: cs) = (scanString .plain cs).cons d := by
  have hu : (c == 'u') = false := by
    rw [beq_eq_false_iff_ne]
    rintro rfl
    cases h
  rw [scanString_backslash, scanString]
  simp [hu, h]

theorem scanString_hexDigit {k : Nat} (hk : k < 16) (count value : Nat) (hcount : count < 3)
    (cs : List Char) :
    scanString (.hex count value none) (hexDigit k :: cs) =
      scanString (.hex (count + 1) (16 * value + k) none) cs := by
  rw [scanString]
  simp [Text.hexValue?_hexDigit hk, hcount]

theorem scanString_lastHexDigit {k value : Nat} (hk : k < 16) (hvalue : 16 * value + k < 0x20)
    (cs : List Char) :
    scanString (.hex 3 value none) (hexDigit k :: cs) =
      (scanString .plain cs).cons (Char.ofNat (16 * value + k)) := by
  have htrail : isTrailSurrogate (16 * value + k) = false := by
    simp [isTrailSurrogate]
    omega
  have hlead : isLeadSurrogate (16 * value + k) = false := by
    simp [isLeadSurrogate]
    omega
  rw [scanString]
  simp [Text.hexValue?_hexDigit hk, htrail, hlead]

theorem scanString_control {c : Char} (h : c.toNat < 0x20) (cs : List Char) :
    scanString .plain ('\\' :: 'u' :: hexDigits 4 c.toNat ++ cs) =
      (scanString .plain cs).cons c := by
  have hmod : ∀ k, k % 16 < 16 := fun k => Nat.mod_lt k (by decide)
  have hvalue : 16 * (16 * (16 * (16 * 0 + c.toNat / 16 / 16 / 16 % 16) + c.toNat / 16 / 16 % 16) +
      c.toNat / 16 % 16) + c.toNat % 16 = c.toNat := by omega
  have hdigits : hexDigits 4 c.toNat = [hexDigit (c.toNat / 16 / 16 / 16 % 16),
      hexDigit (c.toNat / 16 / 16 % 16), hexDigit (c.toNat / 16 % 16),
      hexDigit (c.toNat % 16)] := rfl
  have hescape : ∀ cs, scanString .plain ('\\' :: 'u' :: cs) = scanString (.hex 0 0 none) cs := by
    intro cs
    rw [scanString_backslash, scanString]
    rfl
  rw [List.cons_append, List.cons_append, hescape, hdigits]
  simp only [List.cons_append, List.nil_append]
  rw [scanString_hexDigit (hmod _) 0 _ (by decide), scanString_hexDigit (hmod _) 1 _ (by decide),
    scanString_hexDigit (hmod _) 2 _ (by decide),
    scanString_lastHexDigit (hmod _) (by omega), hvalue, Char.ofNat_toNat]

theorem scanString_escapedChar (c : Char) (cs : List Char) :
    scanString .plain (escapedChar c ++ cs) = (scanString .plain cs).cons c := by
  unfold escapedChar
  -- the seven characters with an escape of one letter
  iterate 7
    split
    · next h =>
      obtain rfl := beq_iff_eq.mp h
      exact scanString_escape rfl cs
  split
  · next h => exact scanString_control h cs
  · next hquote hbackslash _ _ _ _ _ hcontrol =>
    rw [List.singleton_append, scanString]
    dsimp only
    rw [if_neg hquote, if_neg hbackslash, if_neg hcontrol]

/-- A string is read back up to its closing quotation mark. -/
theorem scanString_escaped (s rest : List Char) :
    scanString .plain (s.flatMap escapedChar ++ '"' :: rest) = .closed (.ok s) rest := by
  induction s with
  | nil => simp [scanString]
  | cons c s ih =>
    rw [List.flatMap_cons, List.append_assoc, scanString_escapedChar, ih]
    rfl

/-! ### Values -/

/-- What may follow a value in a text that is printed. -/
def Delimited (rest : List Char) : Prop :=
  ∀ c, rest.head? = some c → c = ',' ∨ c = '\n' ∨ c = ']' ∨ c = '\x7d'

/-- The number `n` is read from its text as `m`. -/
structure Number.ReadsAs (n m : Number) : Prop where
  starts : ∃ c cs, n.chars = c :: cs ∧ (c = '-' ∨ Text.isDigit c)
  scanned : ∀ rest, Delimited rest → scanNumber (n.chars ++ rest) = ⟨.number (.ok m), some rest⟩

section
variable (f : Number → Number)

mutual

/-- The value with `f` applied to its numbers. -/
def Value.mapNumbers : Value → Value
  | .number n => .number (f n)
  | .array items => .array (Value.mapItems items)
  | .object members => .object (Value.mapMembers members)
  | value => value

def Value.mapItems : List Value → List Value
  | [] => []
  | item :: rest => item.mapNumbers :: Value.mapItems rest

def Value.mapMembers : List (String × Value) → List (String × Value)
  | [] => []
  | (name, value) :: rest => (name, value.mapNumbers) :: Value.mapMembers rest

end

mutual

/-- Every number `n` in the value is read from its text as `f n`. -/
def Value.ReadsAs : Value → Prop
  | .number n => n.ReadsAs (f n)
  | .array items => Value.AllReadAs items
  | .object members => Value.MembersReadAs members
  | _ => True

def Value.AllReadAs : List Value → Prop
  | [] => True
  | item :: rest => item.ReadsAs ∧ Value.AllReadAs rest

def Value.MembersReadAs : List (String × Value) → Prop
  | [] => True
  | (_, value) :: rest => value.ReadsAs ∧ Value.MembersReadAs rest

end

end

mutual

@[simp] theorem Value.mapNumbers_id (value : Value) : value.mapNumbers id = value := by
  match value with
  | .null | .bool _ | .number _ | .string _ => rfl
  | .array items => rw [Value.mapNumbers, Value.mapItems_id]
  | .object members => rw [Value.mapNumbers, Value.mapMembers_id]

theorem Value.mapItems_id (items : List Value) : Value.mapItems id items = items := by
  match items with
  | [] => rfl
  | item :: rest => rw [Value.mapItems, Value.mapNumbers_id, Value.mapItems_id]

theorem Value.mapMembers_id (members : List (String × Value)) :
    Value.mapMembers id members = members := by
  match members with
  | [] => rfl
  | (name, value) :: rest => rw [Value.mapMembers, Value.mapNumbers_id, Value.mapMembers_id]

end

theorem skipSpace_cons {c : Char} (h : isSpace c = false) (cs : List Char) :
    skipSpace (c :: cs) = c :: cs := by
  simp [skipSpace, h]

theorem skipSpace_newLine (level : Nat) {c : Char} (h : isSpace c = false) (cs : List Char) :
    skipSpace (Value.newLine level ++ c :: cs) = c :: cs := by
  have hblank : ∀ d ∈ Value.newLine level, isSpace d = true := by
    intro d hd
    rcases List.mem_cons.mp hd with rfl | hd
    · rfl
    · rw [List.eq_of_mem_replicate hd]
      rfl
  rw [skipSpace, List.dropWhile_append_of_pos hblank]
  exact skipSpace_cons h cs

/-- The characters a value may start with. -/
def Opens (c : Char) : Prop :=
  isSpace c = false ∧ c ≠ ']' ∧ c ≠ '\x7d'

instance (c : Char) : Decidable (Opens c) :=
  inferInstanceAs (Decidable (isSpace c = false ∧ c ≠ ']' ∧ c ≠ '\x7d'))

theorem Opens.of_number {c : Char} (h : c = '-' ∨ Text.isDigit c) : Opens c := by
  rcases h with rfl | h
  · decide
  · have hc := Text.isDigit_iff.mp h
    have hne : ∀ d : Char, d.toNat < 48 ∨ 57 < d.toNat → c ≠ d := by
      rintro d hd rfl
      omega
    refine ⟨?_, hne ']' (by decide), hne '\x7d' (by decide)⟩
    simp [isSpace, hne ' ' (by decide), hne '\n' (by decide), hne '\t' (by decide),
      hne '\r' (by decide)]

variable {f : Number → Number}

theorem exists_opens {value : Value} (h : value.ReadsAs f) (level : Nat) :
    ∃ c cs, Value.prettyChars level value = c :: cs ∧ Opens c := by
  have hopens : Opens 'n' ∧ Opens 't' ∧ Opens 'f' ∧ Opens '"' ∧ Opens '[' ∧ Opens '\x7b' := by
    decide
  obtain ⟨hn, ht, hf, hquote, hbracket, hbrace⟩ := hopens
  rcases value with _ | b | n | s | items | members
  · exact ⟨_, _, rfl, hn⟩
  · cases b
    · exact ⟨_, _, rfl, hf⟩
    · exact ⟨_, _, rfl, ht⟩
  · obtain ⟨c, cs, hchars, hc⟩ := Number.ReadsAs.starts h
    exact ⟨c, cs, hchars, .of_number hc⟩
  · exact ⟨_, _, rfl, hquote⟩
  · cases items
    · exact ⟨_, _, rfl, hbracket⟩
    · exact ⟨_, _, rfl, hbracket⟩
  · cases members
    · exact ⟨_, _, rfl, hbrace⟩
    · exact ⟨_, _, rfl, hbrace⟩

/-! ### Lists and objects -/

section

variable {fuel : Nat} {c : Char} {cs rest after : List Char} {item value : Document}

theorem scanValue_array (hopen : skipSpace cs = c :: rest) (hc : Opens c) :
    scanValue (fuel + 1) ('[' :: cs) =
      ⟨.array (scanItems fuel (c :: rest)).found.1 (scanItems fuel (c :: rest)).found.2,
        (scanItems fuel (c :: rest)).rest⟩ := by
  rw [scanValue, skipSpace_cons (by decide)]
  simp [hopen, hc.2.1]

theorem scanItems_last (hitem : scanValue fuel cs = ⟨item, some rest⟩)
    (hclose : skipSpace rest = ']' :: after) :
    scanItems (fuel + 1) cs = ⟨([item], .closed), some after⟩ := by
  rw [scanItems]
  simp [hitem, hclose]

theorem scanItems_comma {items : List Document} {stop : Stop} {left : Option (List Char)}
    (hitem : scanValue fuel cs = ⟨item, some (',' :: rest)⟩)
    (hopen : skipSpace rest = c :: after) (hc : Opens c)
    (hitems : scanItems fuel (c :: after) = ⟨(items, stop), left⟩) :
    scanItems (fuel + 1) cs = ⟨(item :: items, stop), left⟩ := by
  have hcomma : skipSpace (',' :: rest) = ',' :: rest := skipSpace_cons (by decide) rest
  rw [scanItems]
  simp [hitem, hcomma, hopen, hc.2.1, hitems]

theorem scanValue_space (fuel : Nat) (cs : List Char) :
    scanValue fuel (' ' :: cs) = scanValue fuel cs := by
  have hskip : skipSpace (' ' :: cs) = skipSpace cs := by simp [skipSpace, isSpace]
  cases fuel with
  | zero => simp only [scanValue]
  | succ fuel => simp only [scanValue, hskip]

theorem scanValue_object (hopen : skipSpace cs = c :: rest) (hc : Opens c) :
    scanValue (fuel + 1) ('\x7b' :: cs) =
      ⟨.object (scanMembers fuel (c :: rest)).found.1 (scanMembers fuel (c :: rest)).found.2,
        (scanMembers fuel (c :: rest)).rest⟩ := by
  rw [scanValue, skipSpace_cons (by decide)]
  simp [hopen, hc.2.2]

variable {key : List Char} {content : Except SyntaxError (List Char)}

theorem scanMembers_last (hkey : scanString .plain key = .closed content (':' :: cs))
    (hvalue : scanValue fuel cs = ⟨value, some rest⟩) (hclose : skipSpace rest = '\x7d' :: after) :
    scanMembers (fuel + 1) ('"' :: key) =
      ⟨([(content.map String.ofList, value)], .closed), some after⟩ := by
  have hcolon : skipSpace (':' :: cs) = ':' :: cs := skipSpace_cons (by decide) cs
  rw [scanMembers]
  simp [hkey, hcolon, hvalue, hclose]

theorem scanMembers_comma {members : List (Except SyntaxError String × Document)} {stop : Stop}
    {left : Option (List Char)} (hkey : scanString .plain key = .closed content (':' :: cs))
    (hvalue : scanValue fuel cs = ⟨value, some (',' :: rest)⟩) (hopen : skipSpace rest = c :: after)
    (hc : Opens c) (hmembers : scanMembers fuel (c :: after) = ⟨(members, stop), left⟩) :
    scanMembers (fuel + 1) ('"' :: key) =
      ⟨((content.map String.ofList, value) :: members, stop), left⟩ := by
  have hcolon : skipSpace (':' :: cs) = ':' :: cs := skipSpace_cons (by decide) cs
  have hcomma : skipSpace (',' :: rest) = ',' :: rest := skipSpace_cons (by decide) rest
  rw [scanMembers]
  simp [hkey, hcolon, hvalue, hcomma, hopen, hc.2.2, hmembers]

end

/-! ### Printed values -/

theorem delimited_comma (rest : List Char) : Delimited (',' :: rest) := by
  intro c hc
  exact .inl (Option.some.inj hc).symm

theorem delimited_newLine (level : Nat) (rest : List Char) :
    Delimited (Value.newLine level ++ rest) := by
  intro c hc
  exact .inr (.inl (Option.some.inj hc).symm)

theorem skipSpace_value {value : Value} (h : value.ReadsAs f) (level : Nat) (rest : List Char) :
    skipSpace (Value.newLine level ++ (Value.prettyChars level value ++ rest)) =
      Value.prettyChars level value ++ rest := by
  obtain ⟨c, cs, hchars, hc⟩ := exists_opens h level
  rw [hchars, List.cons_append, skipSpace_newLine level hc.1]

theorem prettyItems_cons (level : Nat) (item : Value) (items : List Value) :
    Value.prettyItems level (item :: items) =
      Value.newLine level ++ Value.prettyChars level item ++
        (if items = [] then [] else ',' :: Value.prettyItems level items) := by
  cases items with
  | nil => simp [Value.prettyItems]
  | cons next rest => simp [Value.prettyItems]

theorem prettyMembers_cons (level : Nat) (name : String) (value : Value)
    (members : List (String × Value)) :
    Value.prettyMembers level ((name, value) :: members) =
      Value.newLine level ++ '"' :: (name.toList.flatMap escapedChar ++ '"' :: ':' :: ' ' ::
        (Value.prettyChars level value ++
          (if members = [] then [] else ',' :: Value.prettyMembers level members))) := by
  cases members with
  | nil => simp [Value.prettyMembers, literalChars]
  | cons next rest => simp [Value.prettyMembers, literalChars]

theorem skipSpace_prettyItems {items : List Value} (h : Value.AllReadAs f items) (hne : items ≠ [])
    (level : Nat) (rest : List Char) :
    ∃ c cs, skipSpace (Value.prettyItems level items ++ rest) = c :: cs ∧ Opens c := by
  cases items with
  | nil => contradiction
  | cons item items =>
    obtain ⟨c, cs, hchars, hc⟩ := exists_opens h.1 level
    rw [prettyItems_cons, List.append_assoc, List.append_assoc, hchars, List.cons_append,
      skipSpace_newLine level hc.1]
    exact ⟨c, _, rfl, hc⟩

theorem skipSpace_prettyMembers {members : List (String × Value)} (hne : members ≠ [])
    (level : Nat) (rest : List Char) :
    ∃ cs, skipSpace (Value.prettyMembers level members ++ rest) = '"' :: cs := by
  cases members with
  | nil => contradiction
  | cons member members =>
    rw [prettyMembers_cons, List.append_assoc, List.cons_append,
      skipSpace_newLine level (by decide)]
    exact ⟨_, rfl⟩

theorem scanValue_number {n m : Number} (h : n.ReadsAs m) (fuel : Nat) {rest : List Char}
    (hrest : Delimited rest) :
    scanValue (fuel + 1) (n.chars ++ rest) = ⟨.number (.ok m), some rest⟩ := by
  have hscan := h.scanned rest hrest
  obtain ⟨c, cs, hchars, hc⟩ := h.starts
  have hopens : Opens c := .of_number hc
  have hne : ∀ d, ¬ (d = '-' ∨ Text.isDigit d) → (c == d) = false := by
    intro d hd
    rw [beq_eq_false_iff_ne]
    rintro rfl
    exact hd hc
  have hstarts : (c == '-' || Text.isDigit c) = true := by simpa using hc
  rw [hchars, List.cons_append] at hscan ⊢
  rw [scanValue, skipSpace_cons hopens.1]
  simp only [hne '"' (by decide), hne '[' (by decide), hne '\x7b' (by decide), hstarts, hscan]
  rfl

theorem scanValue_string (s : String) (fuel : Nat) (rest : List Char) :
    scanValue (fuel + 1) (literalChars s ++ rest) = ⟨.string (.ok s), some rest⟩ := by
  have htext : literalChars s ++ rest = '"' :: (s.toList.flatMap escapedChar ++ '"' :: rest) := by
    simp [literalChars]
  rw [htext, scanValue, skipSpace_cons (by decide)]
  simp [scanString_escaped, Except.map]

mutual

/-- A printed value is scanned as the document of the value, up to the text that follows. -/
theorem scanValue_pretty (value : Value) (h : value.ReadsAs f) (level fuel : Nat) (rest : List Char)
    (hfuel : (Value.prettyChars level value).length ≤ fuel) (hrest : Delimited rest) :
    scanValue fuel (Value.prettyChars level value ++ rest) =
      ⟨.ofValue (value.mapNumbers f), some rest⟩ := by
  obtain ⟨c, cs, hchars, -⟩ := exists_opens h level
  obtain ⟨fuel, rfl⟩ : ∃ below, fuel = below + 1 := by
    rw [hchars, List.length_cons] at hfuel
    exact ⟨fuel - 1, by omega⟩
  match value, h with
  | .null, _ | .bool true, _ | .bool false, _ | .array [], _ | .object [], _ =>
    simp only [Value.prettyChars, Value.scalarChars, List.cons_append]
    rw [scanValue, skipSpace_cons (by decide)]
    rfl
  | .number n, hn => exact scanValue_number hn fuel hrest
  | .string s, _ => exact scanValue_string s fuel rest
  | .array (item :: items), hitems =>
    have hne : item :: items ≠ [] := nofun
    obtain ⟨c, cs, hopen, hc⟩ := skipSpace_prettyItems hitems hne (level + 1)
      (Value.newLine level ++ ']' :: rest)
    simp only [Value.prettyChars, List.length_append, List.length_cons] at hfuel
    have hscan := scanItems_pretty (item :: items) hitems hne (level + 1) level fuel rest (by omega)
    rw [hopen] at hscan
    simp only [Value.prettyChars, List.cons_append, List.append_assoc, List.nil_append]
    rw [scanValue_array hopen hc, hscan]
    rfl
  | .object (member :: members), hmembers =>
    have hne : member :: members ≠ [] := nofun
    obtain ⟨cs, hopen⟩ := skipSpace_prettyMembers hne (level + 1)
      (Value.newLine level ++ '\x7d' :: rest)
    simp only [Value.prettyChars, List.length_append, List.length_cons] at hfuel
    have hscan := scanMembers_pretty (member :: members) hmembers hne (level + 1) level fuel rest
      (by omega)
    rw [hopen] at hscan
    simp only [Value.prettyChars, List.cons_append, List.append_assoc, List.nil_append]
    rw [scanValue_object hopen (by decide), hscan]
    rfl

theorem scanItems_pretty (items : List Value) (h : Value.AllReadAs f items) (hne : items ≠ [])
    (level outer fuel : Nat) (rest : List Char)
    (hfuel : (Value.prettyItems level items).length ≤ fuel) :
    scanItems fuel
      (skipSpace (Value.prettyItems level items ++ (Value.newLine outer ++ ']' :: rest))) =
      ⟨(Document.ofItems (Value.mapItems f items), .closed), some rest⟩ := by
  match items, h, hne with
  | item :: items, ⟨hitem, hitems⟩, _ =>
    rw [prettyItems_cons] at hfuel ⊢
    simp only [Value.newLine, List.length_append, List.length_cons] at hfuel
    obtain ⟨fuel, rfl⟩ : ∃ below, fuel = below + 1 := ⟨fuel - 1, by omega⟩
    rw [List.append_assoc, List.append_assoc, skipSpace_value hitem]
    by_cases hlast : items = []
    · subst hlast
      have hscan := scanValue_pretty item hitem level fuel (Value.newLine outer ++ ']' :: rest)
        (by omega) (delimited_newLine outer _)
      exact scanItems_last hscan (skipSpace_newLine outer (by decide) rest)
    · rw [if_neg hlast] at hfuel ⊢
      have hscan := scanValue_pretty item hitem level fuel
        (',' :: (Value.prettyItems level items ++ (Value.newLine outer ++ ']' :: rest)))
        (by omega) (delimited_comma _)
      have htail := scanItems_pretty items hitems hlast level outer fuel rest
        (by rw [List.length_cons] at hfuel; omega)
      obtain ⟨c, cs, hopen, hc⟩ := skipSpace_prettyItems hitems hlast level
        (Value.newLine outer ++ ']' :: rest)
      rw [hopen] at htail
      exact scanItems_comma hscan hopen hc htail

theorem scanMembers_pretty (members : List (String × Value)) (h : Value.MembersReadAs f members)
    (hne : members ≠ []) (level outer fuel : Nat) (rest : List Char)
    (hfuel : (Value.prettyMembers level members).length ≤ fuel) :
    scanMembers fuel
        (skipSpace (Value.prettyMembers level members ++ (Value.newLine outer ++ '\x7d' :: rest))) =
      ⟨(Document.ofMembers (Value.mapMembers f members), .closed), some rest⟩ := by
  match members, h, hne with
  | (name, value) :: members, ⟨hvalue, hmembers⟩, _ =>
    rw [prettyMembers_cons] at hfuel ⊢
    simp only [Value.newLine, List.length_append, List.length_cons] at hfuel
    obtain ⟨fuel, rfl⟩ : ∃ below, fuel = below + 1 := ⟨fuel - 1, by omega⟩
    have hname : (Except.ok name.toList : Except SyntaxError (List Char)).map String.ofList =
        .ok name := by simp [Except.map]
    have hkey := scanString_escaped name.toList
    rw [List.append_assoc, List.cons_append, skipSpace_newLine level (by decide)]
    simp only [List.append_assoc, List.cons_append, Document.ofMembers, Value.mapMembers, ← hname]
    by_cases hlast : members = []
    · subst hlast
      have hscan := scanValue_pretty value hvalue level fuel (Value.newLine outer ++ '\x7d' :: rest)
        (by omega) (delimited_newLine outer _)
      exact scanMembers_last (hkey _) ((scanValue_space fuel _).trans hscan)
        (skipSpace_newLine outer (by decide) rest)
    · rw [if_neg hlast] at hfuel ⊢
      have hscan := scanValue_pretty value hvalue level fuel
        (',' :: (Value.prettyMembers level members ++ (Value.newLine outer ++ '\x7d' :: rest)))
        (by omega) (delimited_comma _)
      have htail := scanMembers_pretty members hmembers hlast level outer fuel rest
        (by rw [List.length_cons] at hfuel; omega)
      obtain ⟨cs, hopen⟩ :=
        skipSpace_prettyMembers hlast level (Value.newLine outer ++ '\x7d' :: rest)
      rw [hopen] at htail
      exact scanMembers_comma (hkey _) ((scanValue_space fuel _).trans hscan) hopen
        (by decide) htail

end

/-- The text of a value is the document of the value, with nothing behind it. -/
theorem scan_pretty {value : Value} (h : value.ReadsAs f) :
    scan value.pretty = ⟨.ofValue (value.mapNumbers f), false⟩ := by
  have hscan := scanValue_pretty value h 0 (2 * (Value.prettyChars 0 value).length + 2) []
    (by omega) nofun
  rw [List.append_nil] at hscan
  simp [scan, Value.pretty, hscan, skipSpace]

theorem parseAs_pretty {α : Type} {value : Value} (h : value.ReadsAs f) (reader : Reader α) :
    parseAs reader value.pretty = reader ⟨.text, depthLimit⟩ (.ofValue (value.mapNumbers f)) := by
  simp only [parseAs, scan_pretty h]
  cases reader ⟨.text, depthLimit⟩ (.ofValue (value.mapNumbers f)) <;> rfl

/-! ### Blank texts -/

/-- There is no value where all characters are blank. -/
theorem scanValue_of_blank {cs : List Char} (hblank : ∀ c ∈ cs, Text.isBlankChar c = true)
    (fuel : Nat) : ∃ fault, scanValue (fuel + 1) cs = .broken fault := by
  rw [scanValue]
  cases hskip : skipSpace cs with
  | nil => exact ⟨_, rfl⟩
  | cons c rest =>
    have hsuffix : c :: rest <:+ cs := hskip ▸ List.dropWhile_suffix isSpace
    have hc : Text.isBlankChar c = true := hblank c (hsuffix.subset List.mem_cons_self)
    have hne : ∀ d, Text.isBlankChar d = false → (c == d) = false := by
      rintro d hd
      rw [beq_eq_false_iff_ne]
      rintro rfl
      cases hd.symm.trans hc
    have hdigit : Text.isDigit c = false := by
      cases hd : Text.isDigit c with
      | false => rfl
      | true => cases (Text.not_isBlankChar_of_isDigit hd).symm.trans hc
    refine ⟨.plain .expectedValue, ?_⟩
    simp only [hne '"' (by decide), hne '[' (by decide), hne '\x7b' (by decide),
      hne '-' (by decide), hne 'n' (by decide), hne 't' (by decide), hne 'f' (by decide),
      hdigit, Bool.or_self, Bool.false_eq_true, if_false]

theorem parse_of_isBlank {text : String} (h : Text.isBlank text = true) :
    ∃ cause, parse text = .error cause := by
  have hblank : ∀ c ∈ text.toList, Text.isBlankChar c = true := List.all_eq_true.mp h
  obtain ⟨fault, hscan⟩ := scanValue_of_blank hblank (2 * text.toList.length + 1)
  refine ⟨.malformed fault.reading, ?_⟩
  simp only [parse, parseAs, scan, hscan, Scanned.broken, Document.toValue, malformed]
  rfl

end Jobflow.Json
