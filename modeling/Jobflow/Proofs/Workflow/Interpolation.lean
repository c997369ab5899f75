import Jobflow.Workflow.Interpolate
import Mathlib.Data.List.Infix

/-!
Substitution in a single pass. Read from the left, a text falls into gaps and tokens in one way
only, and substitution keeps the gaps and puts the values of the tokens between them. What the
scanner has seen of a token when a text ends is all that matters for what follows it, so texts that
do not end within a token are substituted one by one; and where no value can begin a token, the
result has no tokens but those that were kept, and a second substitution changes nothing.
-/

namespace Jobflow.Workflow

/-! ### Gaps and tokens -/

/-- The name of a token: one or more characters, none of them a closing brace. -/
structure IsTokenName (name : List Char) : Prop where
  ne_nil : name ≠ []
  unclosed : '\x7d' ∉ name

/-- The text holds a token of this name, after `gap` and before `rest`. -/
structure HoldsToken (text gap name rest : List Char) : Prop where
  isTokenName : IsTokenName name
  splits : text = gap ++ (tokenChars name ++ rest)

/-- A text read as gaps and tokens: tokens with the gaps before them, and the gap at the end. -/
inductive Pieces where
  | last (gap : List Char)
  | token (gap name : List Char) (rest : Pieces)

/-- The gaps with something in the place of every token. -/
def Pieces.render (value : List Char → List Char) : Pieces → List Char
  | .last gap => gap
  | .token gap name rest => gap ++ (value name ++ rest.render value)

/-- `Scan text pieces`: the text is read from the left, taking the earliest token each time. -/
inductive Scan : List Char → Pieces → Prop
  | last {text : List Char} : (∀ gap name rest, ¬ HoldsToken text gap name rest) →
      Scan text (.last text)
  | token {text gap name rest : List Char} {pieces : Pieces} : HoldsToken text gap name rest →
      (∀ gap' name' rest', HoldsToken text gap' name' rest' → gap.length ≤ gap'.length) →
      Scan rest pieces → Scan text (.token gap name pieces)

section
variable {text gap name rest : List Char} {c : Char}

theorem tokenChars_append (name rest : List Char) :
    tokenChars name ++ rest = '$' :: '\x7b' :: (name ++ '\x7d' :: rest) := by
  simp [tokenChars]

theorem HoldsToken.closes (h : HoldsToken text gap name rest) : '\x7d' ∈ text := by
  rw [h.splits, tokenChars_append]
  simp

/-- A token that does not begin with the text begins within the rest of it. -/
theorem HoldsToken.of_cons (h : HoldsToken (c :: text) gap name rest)
    (hfirst : ∀ name rest, ¬ HoldsToken (c :: text) [] name rest) :
    ∃ gap', gap = c :: gap' ∧ HoldsToken text gap' name rest := by
  cases gap with
  | nil => exact absurd h (hfirst name rest)
  | cons first gap =>
    obtain ⟨rfl, htext⟩ := List.cons.inj h.splits
    exact ⟨gap, rfl, h.isTokenName, htext⟩

theorem HoldsToken.cons (h : HoldsToken text gap name rest) :
    HoldsToken (c :: text) (c :: gap) name rest :=
  ⟨h.isTokenName, congrArg (c :: ·) h.splits⟩

theorem not_holdsToken_of_ne (hc : c ≠ '$') : ¬ HoldsToken (c :: text) [] name rest := by
  intro h
  have heq := h.splits
  rw [List.nil_append, tokenChars_append] at heq
  exact hc (List.cons.inj heq).1

theorem not_holdsToken_dollar (hc : text.head? ≠ some '\x7b') :
    ¬ HoldsToken ('$' :: text) [] name rest := by
  intro h
  have heq := h.splits
  rw [List.nil_append, tokenChars_append] at heq
  rw [(List.cons.inj heq).2] at hc
  exact hc rfl

/-- Nothing between the braces is no name. -/
theorem not_holdsToken_empty : ¬ HoldsToken ('$' :: '\x7b' :: '\x7d' :: text) [] name rest := by
  rintro ⟨⟨hne, hunclosed⟩, heq⟩
  rw [List.nil_append, tokenChars_append] at heq
  cases name with
  | nil => exact hne rfl
  | cons first name =>
    obtain rfl : '\x7d' = first := (List.cons.inj (List.cons.inj (List.cons.inj heq).2).2).1
    exact hunclosed List.mem_cons_self

end

/-- The pieces with one more character in the first gap. -/
def Pieces.cons (c : Char) : Pieces → Pieces
  | .last gap => .last (c :: gap)
  | .token gap name rest => .token (c :: gap) name rest

theorem Pieces.render_cons (value : List Char → List Char) (c : Char) (pieces : Pieces) :
    (pieces.cons c).render value = c :: pieces.render value := by
  cases pieces with
  | last gap => rfl
  | token gap name rest => rfl

/-- A character at which no token begins goes to the first gap. -/
theorem Scan.cons {c : Char} {text : List Char} {pieces : Pieces} (h : Scan text pieces)
    (hfirst : ∀ name rest, ¬ HoldsToken (c :: text) [] name rest) :
    Scan (c :: text) (pieces.cons c) := by
  cases h with
  | last hnone =>
    refine .last fun gap name rest htoken => ?_
    obtain ⟨gap', -, hgap'⟩ := htoken.of_cons hfirst
    exact hnone gap' name rest hgap'
  | token hholds hearliest hrest =>
    refine .token hholds.cons (fun gap' name' rest' htoken => ?_) hrest
    obtain ⟨gap'', rfl, hgap''⟩ := htoken.of_cons hfirst
    exact Nat.succ_le_succ (hearliest gap'' name' rest' hgap'')

/-- The name of a token ends at the first closing brace. -/
theorem name_unique {name name' rest rest' : List Char} (h : '\x7d' ∉ name) (h' : '\x7d' ∉ name')
    (heq : name ++ '\x7d' :: rest = name' ++ '\x7d' :: rest') : name = name' ∧ rest = rest' := by
  induction name generalizing name' with
  | nil =>
    cases name' with
    | nil => exact ⟨rfl, (List.cons.inj heq).2⟩
    | cons first name' =>
      obtain rfl : '\x7d' = first := (List.cons.inj heq).1
      exact absurd List.mem_cons_self h'
  | cons first name ih =>
    cases name' with
    | nil =>
      obtain rfl : first = '\x7d' := (List.cons.inj heq).1
      exact absurd List.mem_cons_self h
    | cons first' name' =>
      obtain ⟨rfl, htail⟩ := List.cons.inj heq
      obtain ⟨rfl, hrest⟩ :=
        ih (List.not_mem_of_not_mem_cons h) (List.not_mem_of_not_mem_cons h') htail
      exact ⟨rfl, hrest⟩

/-- There is one way to read a text. -/
theorem Scan.unique {text : List Char} {pieces pieces' : Pieces} (h : Scan text pieces)
    (h' : Scan text pieces') : pieces = pieces' := by
  induction h generalizing pieces' with
  | last hnone =>
    cases h' with
    | last => rfl
    | token hholds => exact absurd hholds (hnone _ _ _)
  | token hholds hearliest _ ih =>
    cases h' with
    | last hnone => exact absurd hholds (hnone _ _ _)
    | token hholds' hearliest' hrest' =>
      have hlength := Nat.le_antisymm (hearliest _ _ _ hholds') (hearliest' _ _ _ hholds)
      have hsplits := hholds.splits.symm.trans hholds'.splits
      obtain ⟨rfl, htokens⟩ := List.append_inj hsplits hlength
      rw [tokenChars_append, tokenChars_append] at htokens
      obtain ⟨rfl, rfl⟩ := name_unique hholds.isTokenName.unclosed hholds'.isTokenName.unclosed
        (List.cons.inj (List.cons.inj htokens).2).2
      rw [ih hrest']

/-! ### The scanner -/

namespace TokenState

/-- What the scanner has seen of a token and not passed on yet. -/
def seen : TokenState → List Char
  | .outside => []
  | .dollar => ['$']
  | .inside name => ['$', '\x7b'] ++ name.reverse

/-- The name read so far has no closing brace, since the token would have ended there. -/
def IsOpen : TokenState → Prop
  | .inside name => '\x7d' ∉ name
  | _ => True

/-- What the scanner has seen after one more character. -/
def next : TokenState → Char → TokenState
  | .outside, c => if c = '$' then .dollar else .outside
  | .dollar, c => if c = '\x7b' then .inside [] else if c = '$' then .dollar else .outside
  | .inside name, c => if c = '\x7d' then .outside else .inside (c :: name)

/-- What the scanner has seen after a text. -/
def after (state : TokenState) (text : List Char) : TokenState := text.foldl next state

theorem isOpen_outside : TokenState.outside.IsOpen := trivial

theorem IsOpen.next {state : TokenState} (h : state.IsOpen) (c : Char) : (state.next c).IsOpen := by
  cases state with
  | outside =>
    simp only [TokenState.next]
    split <;> trivial
  | dollar =>
    simp only [TokenState.next]
    split
    · exact List.not_mem_nil
    · split <;> trivial
  | inside name =>
    simp only [TokenState.next]
    split
    · trivial
    · next hc => exact List.not_mem_cons_of_ne_of_not_mem (Ne.symm hc) h

theorem IsOpen.after {state : TokenState} (h : state.IsOpen) (text : List Char) :
    (state.after text).IsOpen := by
  induction text generalizing state with
  | nil => exact h
  | cons c text ih => exact ih (h.next c)

/-- What has been seen is the end of the text. -/
theorem exists_seen_next (state : TokenState) (c : Char) :
    ∃ passed, state.seen ++ [c] = passed ++ (state.next c).seen := by
  cases state with
  | outside =>
    simp only [next]
    split
    · next hc => exact ⟨[], by rw [hc]; rfl⟩
    · exact ⟨[c], rfl⟩
  | dollar =>
    simp only [next]
    split
    · next hc => exact ⟨[], by rw [hc]; rfl⟩
    · split
      · next hc => exact ⟨['$'], by rw [hc]; rfl⟩
      · exact ⟨['$', c], rfl⟩
  | inside name =>
    simp only [next]
    split
    · exact ⟨_, (List.append_nil _).symm⟩
    · exact ⟨[], by simp [seen]⟩

theorem exists_seen_after (state : TokenState) (text : List Char) :
    ∃ passed, state.seen ++ text = passed ++ (state.after text).seen := by
  induction text generalizing state with
  | nil => exact ⟨[], List.append_nil _⟩
  | cons c text ih =>
    obtain ⟨passed, hpassed⟩ := state.exists_seen_next c
    obtain ⟨passed', hpassed'⟩ := ih (state.next c)
    refine ⟨passed ++ passed', ?_⟩
    calc state.seen ++ c :: text
      _ = (state.seen ++ [c]) ++ text := by simp
      _ = passed ++ ((state.next c).seen ++ text) := by rw [hpassed, List.append_assoc]
      _ = (passed ++ passed') ++ (state.after (c :: text)).seen := by
        rw [hpassed', List.append_assoc]
        rfl

end TokenState

/-- What the scanner passes on at a character. -/
def emitted (ctx : Context) : TokenState → Char → List Char
  | .outside, c => if c = '$' then [] else [c]
  | .dollar, c => if c = '\x7b' then [] else if c = '$' then ['$'] else ['$', c]
  | .inside name, c =>
    if c = '\x7d' then if name = [] then tokenChars [] else tokenValue ctx name.reverse else []

section
variable (ctx : Context) (state : TokenState)

@[simp] theorem substitute_nil : substitute ctx state [] = state.seen := by
  cases state <;> simp [substitute, TokenState.seen]

theorem substitute_cons (c : Char) (rest : List Char) :
    substitute ctx state (c :: rest) =
      emitted ctx state c ++ substitute ctx (state.next c) rest := by
  cases state with
  | outside =>
    simp only [substitute, emitted, TokenState.next]
    split <;> rfl
  | dollar =>
    simp only [substitute, emitted, TokenState.next]
    split
    · rfl
    · split <;> rfl
  | inside name =>
    simp only [substitute, emitted, TokenState.next]
    split
    · split <;> rfl
    · rfl

/-- Of the first of two texts the second needs to know only what the scanner has seen. -/
theorem exists_substitute_append (text : List Char) :
    ∃ passed, ∀ rest, substitute ctx state (text ++ rest) =
      passed ++ substitute ctx (state.after text) rest := by
  induction text generalizing state with
  | nil => exact ⟨[], fun _ => rfl⟩
  | cons c text ih =>
    obtain ⟨passed, hpassed⟩ := ih (state.next c)
    refine ⟨emitted ctx state c ++ passed, fun rest => ?_⟩
    rw [List.cons_append, substitute_cons, hpassed, List.append_assoc]
    rfl

end

/-! ### The result -/

/-- The result is the gaps of the text with the values of its tokens between them. -/
def Substituted (ctx : Context) (text result : List Char) : Prop :=
  ∃ pieces, Scan text pieces ∧ pieces.render (tokenValue ctx) = result

section
variable {ctx : Context} {text result name : List Char}

theorem substituted_of_noToken (h : ∀ gap name rest, ¬ HoldsToken text gap name rest) :
    Substituted ctx text text :=
  ⟨.last text, .last h, rfl⟩

/-- A text without a closing brace has no tokens. -/
theorem substituted_of_notMem (h : '\x7d' ∉ text) : Substituted ctx text text :=
  substituted_of_noToken fun _ _ _ htoken => h htoken.closes

theorem Substituted.cons {c : Char} (h : Substituted ctx text result)
    (hfirst : ∀ name rest, ¬ HoldsToken (c :: text) [] name rest) :
    Substituted ctx (c :: text) (c :: result) := by
  obtain ⟨pieces, hscan, rfl⟩ := h
  exact ⟨pieces.cons c, hscan.cons hfirst, pieces.render_cons _ c⟩

theorem Substituted.token (h : Substituted ctx text result) (hname : IsTokenName name) :
    Substituted ctx (tokenChars name ++ text) (tokenValue ctx name ++ result) := by
  obtain ⟨pieces, hscan, rfl⟩ := h
  exact ⟨.token [] name pieces, .token ⟨hname, rfl⟩ (fun _ _ _ _ => Nat.zero_le _) hscan, rfl⟩

end

/-- From any state of the scanner, the result is that of what it has seen together with the rest
of the text. -/
theorem substituted_substitute (ctx : Context) {state : TokenState} (h : state.IsOpen)
    (text : List Char) : Substituted ctx (state.seen ++ text) (substitute ctx state text) := by
  fun_induction substitute ctx state text with
  | case1 => exact substituted_of_notMem List.not_mem_nil
  | case2 =>
    have hclosing : '\x7d' ∉ ['$'] := by decide
    exact substituted_of_notMem hclosing
  | case3 name =>
    rw [List.append_nil]
    exact substituted_of_notMem (by simpa [TokenState.seen, TokenState.IsOpen] using h)
  | case4 rest ih => exact ih trivial
  | case5 c rest hc ih => exact (ih trivial).cons fun _ _ => not_holdsToken_of_ne hc
  | case6 rest ih => exact ih List.not_mem_nil
  | case7 rest _ ih =>
    exact (ih trivial).cons fun _ _ => not_holdsToken_dollar (by simp [TokenState.seen])
  | case8 c rest hbrace hdollar ih =>
    have hrest := (ih trivial).cons fun _ _ => not_holdsToken_of_ne hdollar
    exact hrest.cons fun _ _ => not_holdsToken_dollar (by simpa using hbrace)
  | case9 rest ih =>
    have hbrace := (ih trivial).cons fun _ _ => not_holdsToken_of_ne (show '\x7d' ≠ '$' by decide)
    have hpair := hbrace.cons fun _ _ => not_holdsToken_of_ne (show '\x7b' ≠ '$' by decide)
    exact hpair.cons fun _ _ => not_holdsToken_empty
  | case10 name rest hne ih =>
    have hname : IsTokenName name.reverse :=
      ⟨by simpa using hne, by simpa [TokenState.IsOpen] using h⟩
    have htoken := (ih trivial).token hname
    rw [tokenChars_append] at htoken
    simpa [TokenState.seen] using htoken
  | case11 name c rest hc ih =>
    have hopen := ih (List.not_mem_cons_of_ne_of_not_mem (Ne.symm hc) h)
    simpa [TokenState.seen] using hopen

/-- Substitution keeps the gaps of a text and puts the values of its tokens between them. -/
theorem substitute_eq_render (ctx : Context) {text : List Char} {pieces : Pieces}
    (h : Scan text pieces) : substitute ctx .outside text = pieces.render (tokenValue ctx) := by
  obtain ⟨pieces', hscan, heq⟩ := substituted_substitute ctx TokenState.isOpen_outside text
  rw [← heq, h.unique hscan]

theorem exists_scan (text : List Char) : ∃ pieces, Scan text pieces := by
  obtain ⟨pieces, hscan, -⟩ := substituted_substitute .empty TokenState.isOpen_outside text
  exact ⟨pieces, hscan⟩

theorem Substituted.eq_substitute {ctx : Context} {text result : List Char}
    (h : Substituted ctx text result) : substitute ctx .outside text = result := by
  obtain ⟨pieces, hscan, rfl⟩ := h
  exact substitute_eq_render ctx hscan

/-! ### Texts one after another -/

/-- Wherever a token may begin in the text, a closing brace follows. -/
def EndsClosed (text : List Char) : Prop :=
  ∀ rest ∈ text.tails, ['$', '\x7b'] <+: rest → '\x7d' ∈ rest

instance (text : List Char) : Decidable (EndsClosed text) :=
  inferInstanceAs (Decidable (∀ rest ∈ text.tails, ['$', '\x7b'] <+: rest → '\x7d' ∈ rest))

theorem endsClosed_of_notMem {text : List Char} (h : '$' ∉ text) : EndsClosed text := by
  intro rest hrest hbegins
  have hdollar : '$' ∈ rest := hbegins.subset (by simp)
  exact absurd (((List.mem_tails _ _).mp hrest).subset hdollar) h

theorem endsClosed_concat (text : List Char) : EndsClosed (text ++ ['\x7d']) := by
  intro rest hrest hbegins
  obtain ⟨before, hbefore⟩ := (List.mem_tails _ _).mp hrest
  rcases List.eq_nil_or_concat rest with rfl | ⟨init, last, rfl⟩
  · simp at hbegins
  · rw [List.concat_eq_append, ← List.append_assoc] at hbefore
    obtain ⟨-, hlast⟩ := List.append_inj' hbefore rfl
    rw [List.concat_eq_append, hlast]
    simp

/-- After such a text the scanner has seen at most a dollar sign, which is the end of the text. -/
theorem EndsClosed.after {text : List Char} (h : EndsClosed text) :
    TokenState.after .outside text = .outside ∨
      TokenState.after .outside text = .dollar ∧ text.getLast? = some '$' := by
  obtain ⟨passed, hpassed⟩ := TokenState.exists_seen_after .outside text
  have hopen := TokenState.isOpen_outside.after text
  cases hstate : TokenState.after .outside text with
  | outside => exact .inl rfl
  | dollar =>
    rw [hstate] at hpassed
    refine .inr ⟨rfl, ?_⟩
    rw [show text = passed ++ ['$'] from hpassed, List.getLast?_concat]
  | inside name =>
    rw [hstate] at hpassed hopen
    have hclosed := h _ ((List.mem_tails _ _).mpr ⟨passed, hpassed.symm⟩) ⟨name.reverse, rfl⟩
    exact absurd (by simpa [TokenState.seen] using hclosed) hopen

/-- Texts are substituted one by one when no token of theirs can begin in the first and end in the
second. -/
theorem EndsClosed.substitute_append (ctx : Context) {text rest : List Char}
    (h : EndsClosed text) (hborder : ¬ (text.getLast? = some '$' ∧ rest.head? = some '\x7b')) :
    substitute ctx .outside (text ++ rest) =
      substitute ctx .outside text ++ substitute ctx .outside rest := by
  obtain ⟨passed, hpassed⟩ := exists_substitute_append ctx .outside text
  have htext := hpassed []
  rw [List.append_nil, substitute_nil] at htext
  rw [hpassed, htext]
  rcases h.after with hstate | ⟨hstate, hlast⟩
  · rw [hstate, TokenState.seen, List.append_nil]
  · rw [hstate, List.append_assoc]
    congr 1
    -- the dollar sign is passed on as soon as what follows is no opening brace
    cases rest with
    | nil => simp [TokenState.seen]
    | cons c rest =>
      have hc : c ≠ '\x7b' := fun hc => hborder ⟨hlast, by rw [hc]; rfl⟩
      by_cases hdollar : c = '$'
      · simp [substitute, TokenState.seen, hdollar]
      · simp [substitute, TokenState.seen, hc, hdollar]

theorem tokenValue_ne_nil (ctx : Context) (name : List Char) : tokenValue ctx name ≠ [] := by
  unfold tokenValue
  split
  · split
    · simp [tokenChars]
    · next value _ hvalue => simpa using hvalue
  · simp [tokenChars]

theorem substitute_eq_nil_iff (ctx : Context) (text : List Char) :
    substitute ctx .outside text = [] ↔ text = [] := by
  obtain ⟨pieces, hscan⟩ := exists_scan text
  rw [substitute_eq_render ctx hscan]
  cases hscan with
  | last => exact Iff.rfl
  | token hholds =>
    rw [hholds.splits, tokenChars_append]
    simp [Pieces.render, tokenValue_ne_nil]

/-! ### Values of tokens -/

theorem tokenValue_of_text {ctx : Context} {name : List Char} {value : String}
    (h : ctx.get? (.ofList name) = some (.text value)) (hvalue : value ≠ "") :
    tokenValue ctx name = value.toList := by
  simp [tokenValue, Context.text?, h, hvalue]

theorem tokenValue_of_noText {ctx : Context} {name : List Char}
    (h : ∀ value, ctx.get? (.ofList name) = some (.text value) → value = "") :
    tokenValue ctx name = tokenChars name := by
  unfold tokenValue Context.text?
  split
  · next value hvalue =>
    split at hvalue
    · next text htext =>
      obtain rfl := Option.some.inj hvalue
      rw [if_pos (h _ htext)]
    · cases hvalue
  · rfl

/-- Substitution is a single pass from the left that composes. A text falls into gaps and tokens
in one way, and the result is the gaps with every token replaced by the non-empty text bound to its
name, or kept where there is none. So texts are substituted one by one unless a token may begin in
the first and end in the second, and nothing but the empty text becomes empty. -/
theorem interpolate_in_single_pass (ctx : Context) :
    (∀ input : String, ∃! pieces, Scan input.toList pieces) ∧
    (∀ (input : String) pieces, Scan input.toList pieces →
      (interpolate ctx input).toList = pieces.render (tokenValue ctx)) ∧
    (∀ name,
      (∀ value, ctx.get? (.ofList name) = some (.text value) → value ≠ "" →
        tokenValue ctx name = value.toList) ∧
      ((∀ value, ctx.get? (.ofList name) = some (.text value) → value = "") →
        tokenValue ctx name = tokenChars name)) ∧
    (∀ first second : String, EndsClosed first.toList →
      ¬ (first.toList.getLast? = some '$' ∧ second.toList.head? = some '\x7b') →
      interpolate ctx (first ++ second) = interpolate ctx first ++ interpolate ctx second) ∧
    ∀ input, interpolate ctx input = "" ↔ input = "" := by
  refine ⟨?_, ?_, ?_, ?_, ?_⟩
  · intro input
    obtain ⟨pieces, hscan⟩ := exists_scan input.toList
    exact ⟨pieces, hscan, fun _ hother => hother.unique hscan⟩
  · intro input pieces hscan
    rw [interpolate, String.toList_ofList, substitute_eq_render ctx hscan]
  · intro name
    exact ⟨fun value h hvalue => tokenValue_of_text h hvalue, tokenValue_of_noText⟩
  · intro first second hclosed hborder
    have happend := hclosed.substitute_append ctx hborder
    simp only [interpolate, String.toList_append, happend, String.ofList_append]
  · intro input
    have hempty := substitute_eq_nil_iff ctx input.toList
    simpa [interpolate] using hempty

/-- The variables of a run for a certain job. -/
def forJob : Context := .ofBindings [("JobId", .text "42"), ("Flag", .flag true)]

theorem interpolate_in_single_pass_price :
    EndsClosed "$\x7bFlag\x7d costs $".toList ∧
      interpolate forJob ("$\x7bFlag\x7d costs $" ++ "$\x7bJobId\x7d") =
        interpolate forJob "$\x7bFlag\x7d costs $" ++ interpolate forJob "$\x7bJobId\x7d" := by
  have hclosed : EndsClosed "$\x7bFlag\x7d costs $".toList := by decide
  refine ⟨hclosed, ?_⟩
  exact (interpolate_in_single_pass forJob).2.2.2.1 _ _ hclosed (by decide)

/-! ### Plain values -/

/-- No text among the variables has a dollar sign or an opening brace. -/
def PlainTexts (ctx : Context) : Prop :=
  ∀ name value, ctx.get? name = some (.text value) → '$' ∉ value.toList ∧ '\x7b' ∉ value.toList

/-- A piece of a result that is read again as it is, whatever stands next to it. -/
structure SettledPiece (ctx : Context) (piece : List Char) : Prop where
  substitute_eq : substitute ctx .outside piece = piece
  endsClosed : EndsClosed piece
  getLast?_ne : piece.getLast? ≠ some '$'
  head?_ne : piece.head? ≠ some '\x7b'

section
variable {ctx : Context} {text gap name rest : List Char}

theorem settledPiece_plain (hdollar : '$' ∉ text) (hbrace : '\x7b' ∉ text) :
    SettledPiece ctx text where
  substitute_eq := by
    refine (substituted_of_noToken fun gap name rest htoken => hdollar ?_).eq_substitute
    rw [htoken.splits, tokenChars_append]
    simp
  endsClosed := endsClosed_of_notMem hdollar
  getLast?_ne h := hdollar (List.mem_of_getLast? h)
  head?_ne h := hbrace (List.mem_of_head? h)

/-- A token that is kept is kept when it is read again. -/
theorem settledPiece_kept (hname : IsTokenName name)
    (hkept : tokenValue ctx name = tokenChars name) :
    SettledPiece ctx (tokenChars name) where
  substitute_eq := by
    have hnothing : Substituted ctx [] [] := substituted_of_notMem List.not_mem_nil
    have htoken := hnothing.token hname
    simpa [hkept] using htoken.eq_substitute
  endsClosed := endsClosed_concat (['$', '\x7b'] ++ name)
  getLast?_ne := by
    rw [tokenChars, List.getLast?_concat]
    decide
  head?_ne := by simp [tokenChars]

theorem settledPiece_tokenValue (hplain : PlainTexts ctx) (hname : IsTokenName name) :
    SettledPiece ctx (tokenValue ctx name) := by
  by_cases hbound : ∃ value, ctx.get? (.ofList name) = some (.text value) ∧ value ≠ ""
  · obtain ⟨value, hvalue, hne⟩ := hbound
    rw [tokenValue_of_text hvalue hne]
    exact settledPiece_plain (hplain _ _ hvalue).1 (hplain _ _ hvalue).2
  · have hkept : tokenValue ctx name = tokenChars name :=
      tokenValue_of_noText fun value hvalue => by_contra fun hne => hbound ⟨value, hvalue, hne⟩
    rw [hkept]
    exact settledPiece_kept hname hkept

/-- The gap before the earliest token has no token. -/
theorem HoldsToken.noToken_gap (h : HoldsToken text gap name rest)
    (hearliest : ∀ gap' name' rest', HoldsToken text gap' name' rest' → gap.length ≤ gap'.length)
    (gap' name' rest' : List Char) : ¬ HoldsToken gap gap' name' rest' := by
  intro htoken
  have hlength := hearliest gap' name' (rest' ++ (tokenChars name ++ rest))
    ⟨htoken.isTokenName, by rw [h.splits, htoken.splits]; simp⟩
  rw [htoken.splits, tokenChars_append] at hlength
  simp only [List.length_append, List.length_cons] at hlength
  omega

/-- No token begins in the gap before the earliest one, since it would end with that. -/
theorem HoldsToken.endsClosed_gap (h : HoldsToken text gap name rest)
    (hearliest : ∀ gap' name' rest', HoldsToken text gap' name' rest' → gap.length ≤ gap'.length) :
    EndsClosed gap := by
  intro begun hbegun hbegins
  obtain ⟨before, rfl⟩ := (List.mem_tails _ _).mp hbegun
  obtain ⟨inner, rfl⟩ := hbegins
  by_contra hopen
  have hinner : IsTokenName (inner ++ '$' :: '\x7b' :: name) := by
    refine ⟨by simp, ?_⟩
    have hunclosed := h.isTokenName.unclosed
    simp_all
  have hlength := hearliest before (inner ++ '$' :: '\x7b' :: name) rest
    ⟨hinner, by rw [h.splits, tokenChars_append, tokenChars_append]; simp⟩
  simp only [List.length_append, List.length_cons] at hlength
  omega

end

/-- What comes out of a text has no tokens but those that were kept. -/
theorem Scan.substitute_render {ctx : Context} (hplain : PlainTexts ctx) {text : List Char}
    {pieces : Pieces} (h : Scan text pieces) :
    substitute ctx .outside (pieces.render (tokenValue ctx)) = pieces.render (tokenValue ctx) := by
  induction h with
  | last hnone => exact (substituted_of_noToken hnone).eq_substitute
  | @token text gap name rest pieces hholds hearliest _ ih =>
    obtain ⟨hvalue, hclosed, hlast, hhead⟩ := settledPiece_tokenValue hplain hholds.isTokenName
    have hgap : substitute ctx .outside gap = gap :=
      (substituted_of_noToken (hholds.noToken_gap hearliest)).eq_substitute
    have hfirst : (tokenValue ctx name ++ pieces.render (tokenValue ctx)).head? ≠ some '\x7b' := by
      rwa [List.head?_append_of_ne_nil _ (tokenValue_ne_nil ctx name)]
    rw [Pieces.render,
      (hholds.endsClosed_gap hearliest).substitute_append ctx fun hborder => hfirst hborder.2,
      hclosed.substitute_append ctx fun hborder => hlast hborder.1, hgap, hvalue, ih]

/-- Where no text among the variables has a dollar sign or an opening brace, substituting a second
time changes nothing. -/
theorem interpolate_plain_twice {ctx : Context} (hplain : PlainTexts ctx) (input : String) :
    interpolate ctx (interpolate ctx input) = interpolate ctx input := by
  obtain ⟨pieces, hscan⟩ := exists_scan input.toList
  simp only [interpolate, String.toList_ofList, substitute_eq_render ctx hscan,
    hscan.substitute_render hplain]

theorem get?_forJob {name value : String} (h : forJob.get? name = some (.text value)) :
    name = "JobId" ∧ value = "42" := by
  have hbindings : forJob.bindings = [("Flag", .flag true), ("JobId", .text "42")] := by decide
  simp only [Context.get?, hbindings, Dict.find?] at h
  split at h
  · cases h
  · split at h
    · next hname =>
      cases h
      exact ⟨hname.symm, rfl⟩
    · cases h

theorem plainTexts_forJob : PlainTexts forJob := by
  intro name value h
  obtain ⟨-, rfl⟩ := get?_forJob h
  decide

theorem interpolate_plain_twice_leftover :
    PlainTexts forJob ∧
      interpolate forJob (interpolate forJob "$$\x7bJobId\x7d $\x7bFlag\x7d $\x7b$") =
        interpolate forJob "$$\x7bJobId\x7d $\x7bFlag\x7d $\x7b$" := by
  exact ⟨plainTexts_forJob, interpolate_plain_twice plainTexts_forJob _⟩

end Jobflow.Workflow
