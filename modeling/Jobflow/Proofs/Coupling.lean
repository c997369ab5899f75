import Jobflow.Proofs.Program

/-!
Two programs side by side, each in a world of its own. As long as their operations are alike
and the answers are alike, they go on alike; so two worlds that answer alike bring them to
results that are alike. A world is seen here only through its answers, one after another.
-/

namespace Jobflow.Program

variable {I : Interface} {α β α' β' σ τ : Type}

/-! ### What a program may ask -/

/-- Whatever it is answered, every operation of the program satisfies `P`. -/
def Asks (P : I.Op → Prop) : Program I α → Prop
  | .done _ => True
  | .step op next => P op ∧ ∀ answer, Asks P (next answer)

theorem asks_true (p : Program I α) : Asks (fun _ => True) p := by
  induction p with
  | done a => trivial
  | step op next ih => exact ⟨trivial, ih⟩

theorem asks_pure {P : I.Op → Prop} (a : α) : Asks P (pure a : Program I α) := trivial

theorem Asks.bind {P : I.Op → Prop} {p : Program I α} {f : α → Program I β} (hp : Asks P p)
    (hf : ∀ a, Asks P (f a)) : Asks P (p >>= f) := by
  induction p with
  | done a => exact hf a
  | step op next ih => exact ⟨hp.1, fun answer => ih answer (hp.2 answer)⟩

theorem Performs.asks {P : I.Op → Prop} {p : Program I α}
    {trace : List ((op : I.Op) × I.Answer op)} {a : α} (h : Performs p trace a) (hp : Asks P p) :
    ∀ exchange ∈ trace, P exchange.1 := by
  induction h with
  | done a => simp
  | step _ ih => exact List.forall_mem_cons.mpr ⟨hp.1, ih (hp.2 _)⟩

/-! ### Two programs -/

/-- Two programs that perform operations that `Op` relates, as long as `Like` relates what they
are answered, and end with results that `R` relates. -/
inductive Coupled (Op : I.Op → I.Op → Prop)
    (Like : (op : I.Op) × I.Answer op → (op : I.Op) × I.Answer op → Prop) (R : α → β → Prop) :
    Program I α → Program I β → Prop
  | done {a : α} {b : β} : R a b → Coupled Op Like R (.done a) (.done b)
  | step {op op' : I.Op} {next : I.Answer op → Program I α} {next' : I.Answer op' → Program I β} :
      Op op op' →
      (∀ answer answer', Like ⟨op, answer⟩ ⟨op', answer'⟩ →
        Coupled Op Like R (next answer) (next' answer')) →
      Coupled Op Like R (.step op next) (.step op' next')

section
variable {Op : I.Op → I.Op → Prop}
  {Like : (op : I.Op) × I.Answer op → (op : I.Op) × I.Answer op → Prop}

theorem coupled_pure {R : α → β → Prop} {a : α} {b : β} (h : R a b) :
    Coupled Op Like R (pure a) (pure b) := .done h

theorem Coupled.mono {R R' : α → β → Prop} {p : Program I α} {q : Program I β}
    (h : Coupled Op Like R p q) (hR : ∀ a b, R a b → R' a b) : Coupled Op Like R' p q := by
  induction h with
  | done h => exact .done (hR _ _ h)
  | step hop _ ih => exact .step hop ih

/-- Every program goes on like itself. -/
theorem coupled_refl (p : Program I α) : Coupled Eq Eq Eq p p := by
  induction p with
  | done a => exact .done rfl
  | step op next ih =>
    refine .step rfl ?_
    rintro answer _ ⟨⟩
    exact ih answer

theorem Coupled.bind {R : α → β → Prop} {S : α' → β' → Prop} {p : Program I α} {q : Program I β}
    {f : α → Program I α'} {g : β → Program I β'} (hpq : Coupled Op Like R p q)
    (hfg : ∀ a b, R a b → Coupled Op Like S (f a) (g b)) :
    Coupled Op Like S (p >>= f) (q >>= g) := by
  induction hpq with
  | done h => exact hfg _ _ h
  | step hop _ ih => exact .step hop ih

end

/-! ### Worlds -/

/-- `Along S state trace state'`: the exchanges of `trace` lead from one state to the other,
each by a step of `S`. -/
inductive Along (S : σ → (op : I.Op) × I.Answer op → σ → Prop) :
    σ → List ((op : I.Op) × I.Answer op) → σ → Prop
  | nil (state : σ) : Along S state [] state
  | cons {state mid last : σ} {exchange : (op : I.Op) × I.Answer op}
      {trace : List ((op : I.Op) × I.Answer op)} :
      S state exchange mid → Along S mid trace last → Along S state (exchange :: trace) last

theorem Along.of_append {S : σ → (op : I.Op) × I.Answer op → σ → Prop} {first last : σ}
    {trace trace' : List ((op : I.Op) × I.Answer op)} (h : Along S first (trace ++ trace') last) :
    ∃ mid, Along S first trace mid ∧ Along S mid trace' last := by
  induction trace generalizing first with
  | nil => exact ⟨first, .nil first, h⟩
  | cons exchange rest ih =>
    cases h with
    | cons hstep hrest =>
      obtain ⟨mid, hmid, hlast⟩ := ih hrest
      exact ⟨mid, .cons hstep hmid, hlast⟩

/-- Coupled programs in worlds that answer alike from states that are alike: the results are
alike, and so are the states at the end. -/
theorem Coupled.along {Op : I.Op → I.Op → Prop}
    {Like : (op : I.Op) × I.Answer op → (op : I.Op) × I.Answer op → Prop} {R : α → β → Prop}
    {S : σ → (op : I.Op) × I.Answer op → σ → Prop} {T : τ → (op : I.Op) × I.Answer op → τ → Prop}
    {Alike : σ → τ → Prop}
    (hworlds : ∀ {state state' exchange exchange' mid mid'}, Alike state state' →
      Op exchange.1 exchange'.1 → S state exchange mid → T state' exchange' mid' →
      Like exchange exchange' ∧ Alike mid mid')
    {p : Program I α} {q : Program I β} {trace trace' : List ((op : I.Op) × I.Answer op)} {a : α}
    {b : β} {first last : σ} {first' last' : τ} (hpq : Coupled Op Like R p q)
    (hp : Performs p trace a) (hq : Performs q trace' b) (hfirst : Alike first first')
    (hS : Along S first trace last) (hT : Along T first' trace' last') :
    R a b ∧ Alike last last' := by
  induction hpq generalizing trace trace' first first' with
  | done hR =>
    cases hp
    cases hq
    cases hS
    cases hT
    exact ⟨hR, hfirst⟩
  | step hop _ ih =>
    cases hp with
    | step hp =>
      cases hq with
      | step hq =>
        cases hS with
        | cons hstep hS =>
          cases hT with
          | cons hstep' hT =>
            obtain ⟨hlike, hmid⟩ := hworlds hfirst hop hstep hstep'
            exact ih _ _ hlike hp hq hmid hS hT

end Jobflow.Program
