import Jobflow.Proofs.Workflow.Interpolation

/-!
Tokens that substitution leaves. A token is taken as early as possible, so an opening that is not
closed swallows what stands before the next closing brace, a token of its own included: all of it is
one name. Where no value can begin a token, these are the only bound tokens that a result still has.
-/

namespace Jobflow.Workflow

/-- A non-empty text is bound to the name. -/
def IsBound (ctx : Context) (name : List Char) : Prop :=
  ∃ value, ctx.get? (.ofList name) = some (.text value) ∧ value ≠ ""

namespace Pieces

/-- The gaps, from left to right. -/
def gaps : Pieces → List (List Char)
  | .last gap => [gap]
  | .token gap _ rest => gap :: rest.gaps

/-- The names of the tokens, from left to right. -/
def names : Pieces → List (List Char)
  | .last _ => []
  | .token _ name rest => name :: rest.names

end Pieces

section
variable {text gap name outer rest : List Char} {pieces : Pieces}

theorem Scan.noToken_of_mem_gaps (h : Scan text pieces) (hgap : gap ∈ pieces.gaps)
    (gap' name' rest' : List Char) : ¬ HoldsToken gap gap' name' rest' := by
  induction h with
  | last hnone =>
    obtain rfl := List.mem_singleton.mp hgap
    exact hnone gap' name' rest'
  | token hholds hearliest _ ih =>
    rcases List.mem_cons.mp hgap with rfl | hgap
    · exact hholds.noToken_gap hearliest gap' name' rest'
    · exact ih hgap

/-- The tokens that a text is read as are tokens of it. -/
theorem Scan.holdsToken_of_mem_names (h : Scan text pieces) (hname : name ∈ pieces.names) :
    ∃ before after, HoldsToken text before name after := by
  induction h with
  | last => exact absurd hname List.not_mem_nil
  | @token text gap first after pieces hholds _ _ ih =>
    rcases List.mem_cons.mp hname with rfl | hname
    · exact ⟨gap, after, hholds⟩
    · obtain ⟨before', after', hlater⟩ := ih hname
      refine ⟨gap ++ tokenChars first ++ before', after', hlater.isTokenName, ?_⟩
      rw [hholds.splits, hlater.splits]
      simp only [List.append_assoc]

/-! ### Where a token can stand -/

theorem tokenChars_eq_concat (name : List Char) :
    tokenChars name = ('$' :: '\x7b' :: name) ++ ['\x7d'] := rfl

/-- What is left of a token before its end is the dollar sign, or an opening that is not closed. -/
theorem cut_token {begun ending : List Char} (hname : '\x7d' ∉ name)
    (hsplit : tokenChars name = begun ++ ending) (hending : ending ≠ []) :
    '\x7d' ∉ begun ∧ (begun = [] ∨ (begun = ['$'] ∧ ending.head? = some '\x7b') ∨
      ['$', '\x7b'] <+: begun) := by
  have hopen : '\x7d' ∉ '$' :: '\x7b' :: name := by simpa using hname
  obtain ⟨init, last, rfl⟩ := List.eq_nil_or_concat ending |>.resolve_left hending
  rw [tokenChars_eq_concat, List.concat_eq_append, ← List.append_assoc] at hsplit
  have hbegun : '$' :: '\x7b' :: name = begun ++ init := (List.append_inj' hsplit rfl).1
  refine ⟨fun hmem => hopen (hbegun ▸ List.mem_append_left init hmem), ?_⟩
  rcases begun with _ | ⟨first, _ | ⟨second, begun⟩⟩
  · exact .inl rfl
  · obtain ⟨rfl, hinit⟩ := List.cons.inj hbegun
    refine .inr (.inl ⟨rfl, ?_⟩)
    rw [← hinit.trans (List.nil_append init)]
    rfl
  · obtain ⟨rfl, hsecond⟩ := List.cons.inj hbegun
    obtain ⟨rfl, -⟩ := List.cons.inj hsecond
    exact .inr (.inr ⟨begun, rfl⟩)

/-- A token of two texts one after the other is one of the first or one of the second when none can
begin in the first and end in the second. -/
theorem EndsClosed.tokenChars_infix_append (h : EndsClosed text)
    (hborder : ¬ (text.getLast? = some '$' ∧ rest.head? = some '\x7b')) (hname : '\x7d' ∉ name) :
    tokenChars name <:+: text ++ rest ↔ tokenChars name <:+: text ∨ tokenChars name <:+: rest := by
  constructor
  · rintro ⟨before, after, heq⟩
    rw [List.append_assoc] at heq
    rcases List.append_eq_append_iff.mp heq with ⟨begun, htext, hrest⟩ | ⟨skipped, -, hrest⟩
    · rcases List.append_eq_append_iff.mp hrest.symm with
        ⟨ending, hsplit, hrest⟩ | ⟨later, hbegun, -⟩
      · by_cases hending : ending = []
        · refine .inl ⟨before, [], ?_⟩
          rw [htext, hsplit, hending, List.append_nil, List.append_nil]
        -- the token is cut by the border
        obtain ⟨hopen, hbegun | ⟨hdollar, hbrace⟩ | hbegun⟩ := cut_token hname hsplit hending
        · refine .inr ⟨[], after, ?_⟩
          rw [hrest, hsplit, hbegun, List.nil_append, List.nil_append]
        · refine absurd ⟨?_, ?_⟩ hborder
          · rw [htext, hdollar, List.getLast?_concat]
          · rw [hrest, List.head?_append_of_ne_nil _ hending, hbrace]
        · exact absurd (h begun ((List.mem_tails _ _).mpr ⟨before, htext.symm⟩) hbegun) hopen
      · refine .inl ⟨before, later, ?_⟩
        rw [htext, hbegun, List.append_assoc]
    · exact .inr ⟨skipped, after, by rw [hrest, List.append_assoc]⟩
  · rintro (htext | hrest)
    · exact htext.trans (List.prefix_append text rest).isInfix
    · exact hrest.trans (List.suffix_append text rest).isInfix

/-- In a token there is no other token but one at the end of its name. -/
theorem tokenChars_infix_tokenChars (houter : '\x7d' ∉ outer) :
    tokenChars name <:+: tokenChars outer ↔ name = outer ∨ ['$', '\x7b'] ++ name <:+ outer := by
  have hopen : '\x7d' ∉ '$' :: '\x7b' :: outer := by simpa using houter
  constructor
  · rintro ⟨before, after, heq⟩
    rw [tokenChars_eq_concat, tokenChars_eq_concat] at heq
    rcases List.eq_nil_or_concat after with rfl | ⟨init, last, rfl⟩
    · rw [List.append_nil, ← List.append_assoc] at heq
      have hname : before ++ '$' :: '\x7b' :: name = '$' :: '\x7b' :: outer :=
        (List.append_inj' heq rfl).1
      rcases before with _ | ⟨first, _ | ⟨second, before⟩⟩
      · exact .inl (List.cons.inj (List.cons.inj hname).2).2
      · exact absurd (List.cons.inj (List.cons.inj hname).2).1 (by decide)
      · exact .inr ⟨before, (List.cons.inj (List.cons.inj hname).2).2⟩
    · rw [List.concat_eq_append, ← List.append_assoc] at heq
      have hclosed := (List.append_inj' heq rfl).1
      exact absurd (hclosed ▸ by simp) hopen
  · rintro (rfl | ⟨before, rfl⟩)
    · exact List.infix_rfl
    · exact ⟨['$', '\x7b'] ++ before, [], by simp [tokenChars]⟩

theorem not_tokenChars_infix_of_noToken
    (hnone : ∀ before name after, ¬ HoldsToken text before name after) (hname : IsTokenName name) :
    ¬ tokenChars name <:+: text := by
  rintro ⟨before, after, heq⟩
  exact hnone before name after ⟨hname, by rw [← heq, List.append_assoc]⟩

/-! ### What is left -/

/-- A token of the result is in a gap or in what stands for a token. -/
theorem Scan.tokenChars_infix_render {ctx : Context} (hplain : PlainTexts ctx)
    (h : Scan text pieces) (hname : '\x7d' ∉ name) :
    tokenChars name <:+: pieces.render (tokenValue ctx) ↔
      (∃ gap ∈ pieces.gaps, tokenChars name <:+: gap) ∨
        ∃ outer ∈ pieces.names, tokenChars name <:+: tokenValue ctx outer := by
  induction h with
  | last => simp [Pieces.render, Pieces.gaps, Pieces.names]
  | @token text gap outer rest pieces hholds hearliest _ ih =>
    obtain ⟨-, hclosed, hlast, hhead⟩ := settledPiece_tokenValue hplain hholds.isTokenName
    have hfirst : (tokenValue ctx outer ++ pieces.render (tokenValue ctx)).head? ≠ some '\x7b' := by
      rwa [List.head?_append_of_ne_nil _ (tokenValue_ne_nil ctx outer)]
    rw [Pieces.render, (hholds.endsClosed_gap hearliest).tokenChars_infix_append
        (fun hborder => hfirst hborder.2) hname,
      hclosed.tokenChars_infix_append (fun hborder => hlast hborder.1) hname, ih]
    simp only [Pieces.gaps, Pieces.names, List.exists_mem_cons_iff]
    rw [← or_assoc, or_or_or_comm]

/-- What stands for a token has a bound token only if it is the token itself, kept, with an opening
in its name. -/
theorem tokenChars_infix_tokenValue {ctx : Context} (hplain : PlainTexts ctx)
    (houter : IsTokenName outer) (hbound : IsBound ctx name) :
    tokenChars name <:+: tokenValue ctx outer ↔
      ¬ IsBound ctx outer ∧ ['$', '\x7b'] ++ name <:+ outer := by
  by_cases hkept : IsBound ctx outer
  · obtain ⟨value, hvalue, hne⟩ := hkept
    rw [tokenValue_of_text hvalue hne]
    refine ⟨fun hinfix => ?_, fun hnot => absurd ⟨value, hvalue, hne⟩ hnot.1⟩
    have hdollar : '$' ∈ value.toList := hinfix.subset (by simp [tokenChars])
    exact absurd hdollar (hplain _ _ hvalue).1
  · have hvalue : tokenValue ctx outer = tokenChars outer :=
      tokenValue_of_noText fun value hvalue => by_contra fun hne => hkept ⟨value, hvalue, hne⟩
    rw [hvalue, tokenChars_infix_tokenChars houter.unclosed]
    constructor
    · rintro (rfl | hsuffix)
      · exact absurd hbound hkept
      · exact ⟨hkept, hsuffix⟩
    · exact fun hsuffix => .inr hsuffix.2

end

/-- Where no text among the variables has a dollar sign or an opening brace, a bound token is left
in the result just where a token that is not bound has swallowed it, from an earlier opening on.
(Nothing between two braces is no token, and stays where it is.) So none is left of a text whose
tokens have no opening within their names. -/
theorem bound_token_left_iff_swallowed {ctx : Context} (hplain : PlainTexts ctx) (input : String)
    {name : List Char} (hname : '\x7d' ∉ name) (hbound : IsBound ctx name) :
    (∃ pieces, Scan input.toList pieces ∧
      (tokenChars name <:+: (interpolate ctx input).toList ↔
        (name = [] ∧ ∃ gap ∈ pieces.gaps, tokenChars [] <:+: gap) ∨
          ∃ outer ∈ pieces.names, ¬ IsBound ctx outer ∧ ['$', '\x7b'] ++ name <:+ outer)) ∧
    (name ≠ [] →
      (∀ gap outer rest, HoldsToken input.toList gap outer rest → ¬ ['$', '\x7b'] <:+: outer) →
      ¬ tokenChars name <:+: (interpolate ctx input).toList) := by
  obtain ⟨pieces, hscan⟩ := exists_scan input.toList
  have htoken {outer : List Char} (houter : outer ∈ pieces.names) : IsTokenName outer := by
    obtain ⟨before, after, hholds⟩ := hscan.holdsToken_of_mem_names houter
    exact hholds.isTokenName
  have hleft : tokenChars name <:+: (interpolate ctx input).toList ↔
      (name = [] ∧ ∃ gap ∈ pieces.gaps, tokenChars [] <:+: gap) ∨
        ∃ outer ∈ pieces.names, ¬ IsBound ctx outer ∧ ['$', '\x7b'] ++ name <:+ outer := by
    rw [interpolate, String.toList_ofList, substitute_eq_render ctx hscan,
      hscan.tokenChars_infix_render hplain hname]
    refine or_congr ?_ (exists_congr fun outer => and_congr_right fun houter =>
      tokenChars_infix_tokenValue hplain (htoken houter) hbound)
    constructor
    · rintro ⟨gap, hgap, hinfix⟩
      by_cases hempty : name = []
      · exact ⟨hempty, gap, hgap, hempty ▸ hinfix⟩
      · exact absurd hinfix (not_tokenChars_infix_of_noToken (hscan.noToken_of_mem_gaps hgap)
          ⟨hempty, hname⟩)
    · rintro ⟨rfl, hgap⟩
      exact hgap
  refine ⟨⟨pieces, hscan, hleft⟩, fun hne hnested hinfix => ?_⟩
  rcases hleft.mp hinfix with ⟨hempty, -⟩ | ⟨outer, houter, -, hsuffix⟩
  · exact hne hempty
  · obtain ⟨before, after, hholds⟩ := hscan.holdsToken_of_mem_names houter
    exact hnested before outer after hholds
      ((List.prefix_append _ name).isInfix.trans hsuffix.isInfix)

theorem bound_token_left_iff_swallowed_jobId :
    PlainTexts forJob ∧ '\x7d' ∉ "JobId".toList ∧ IsBound forJob "JobId".toList ∧
      ∃ pieces, Scan "$\x7ba$\x7bJobId\x7d $\x7bJobId\x7d".toList pieces ∧
        (tokenChars "JobId".toList <:+:
            (interpolate forJob "$\x7ba$\x7bJobId\x7d $\x7bJobId\x7d").toList ↔
          ("JobId".toList = [] ∧ ∃ gap ∈ pieces.gaps, tokenChars [] <:+: gap) ∨
            ∃ outer ∈ pieces.names,
              ¬ IsBound forJob outer ∧ ['$', '\x7b'] ++ "JobId".toList <:+ outer) := by
  have hbound : IsBound forJob "JobId".toList := ⟨"42", by decide, by decide⟩
  exact ⟨plainTexts_forJob, by decide, hbound,
    (bound_token_left_iff_swallowed plainTexts_forJob _ (by decide) hbound).1⟩

/-- An opening that is not closed swallows a bound token, though no value has a dollar sign or a
brace. -/
theorem swallowed_token_is_left :
    (∀ name value, forJob.get? name = some (.text value) →
      '$' ∉ value.toList ∧ '\x7b' ∉ value.toList ∧ '\x7d' ∉ value.toList) ∧
    forJob.get? "JobId" = some (.text "42") ∧
    tokenChars "JobId".toList <:+: (interpolate forJob "$\x7ba$\x7bJobId\x7d").toList := by
  refine ⟨?_, by decide, by decide⟩
  intro name value h
  obtain ⟨-, rfl⟩ := get?_forJob h
  decide

end Jobflow.Workflow
