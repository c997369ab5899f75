import Jobflow.Program.Basic

/-!
What a program yields in every world whose answers satisfy a condition, and that the
answers alone decide what it does.
-/

namespace Jobflow.Program

variable {I : Interface} {α β : Type} {Q : (op : I.Op) → I.Answer op → Prop}

/-- As long as the answers satisfy `Q`, the result satisfies `P`. -/
def Yields (Q : (op : I.Op) → I.Answer op → Prop) (P : α → Prop) : Program I α → Prop
  | .done a => P a
  | .step op next => ∀ answer, Q op answer → Yields Q P (next answer)

theorem yields_true (p : Program I α) : Yields Q (fun _ => True) p := by
  induction p with
  | done a => trivial
  | step op next ih => exact fun answer _ => ih answer

theorem Yields.bind {P : α → Prop} {R : β → Prop} {p : Program I α} {f : α → Program I β}
    (hp : Yields Q P p) (hf : ∀ a, P a → Yields Q R (f a)) : Yields Q R (p >>= f) := by
  induction p with
  | done a => exact hf a hp
  | step op next ih => exact fun answer hanswer => ih answer (hp answer hanswer)

theorem yields_pure {P : α → Prop} {a : α} (h : P a) : Yields Q P (pure a : Program I α) := h

theorem Yields.mono {P R : α → Prop} {Q' : (op : I.Op) → I.Answer op → Prop} {p : Program I α}
    (hp : Yields Q P p) (hQ : ∀ op answer, Q' op answer → Q op answer) (hP : ∀ a, P a → R a) :
    Yields Q' R p := by
  induction p with
  | done a => exact hP a hp
  | step op next ih => exact fun answer hanswer => ih answer (hp answer (hQ op answer hanswer))

theorem Yields.and {P R : α → Prop} {p : Program I α} (hp : Yields Q P p) (hr : Yields Q R p) :
    Yields Q (fun a => P a ∧ R a) p := by
  induction p with
  | done a => exact ⟨hp, hr⟩
  | step op next ih => exact fun answer hanswer => ih answer (hp answer hanswer) (hr answer hanswer)

/-- What follows a program matters for the results alone that the program can have. -/
theorem Yields.bind_congr {P : α → Prop} {p : Program I α} {f g : α → Program I β}
    (hp : Yields (fun _ _ => True) P p) (hfg : ∀ a, P a → f a = g a) : p >>= f = p >>= g := by
  induction p with
  | done a => exact hfg a hp
  | step op next ih =>
    exact congrArg (Program.step op) (funext fun answer => ih answer (hp answer trivial))

theorem Performs.of_done {trace : List ((op : I.Op) × I.Answer op)} {a b : α}
    (h : Performs (.done b : Program I α) trace a) : trace = [] ∧ a = b := by
  cases h
  exact ⟨rfl, rfl⟩

theorem Performs.of_step {op : I.Op} {next : I.Answer op → Program I α}
    {trace : List ((op : I.Op) × I.Answer op)} {a : α} (h : Performs (.step op next) trace a) :
    ∃ answer rest, trace = ⟨op, answer⟩ :: rest ∧ Performs (next answer) rest a := by
  cases h with
  | step hrest => exact ⟨_, _, rfl, hrest⟩

theorem Performs.yields {P : α → Prop} {p : Program I α}
    {trace : List ((op : I.Op) × I.Answer op)} {a : α} (h : Performs p trace a)
    (hp : Yields Q P p) (htrace : ∀ exchange ∈ trace, Q exchange.1 exchange.2) : P a := by
  induction h with
  | done a => exact hp
  | step _ ih =>
    apply ih (hp _ (htrace _ List.mem_cons_self))
    intro exchange hexchange
    exact htrace exchange (List.mem_cons_of_mem _ hexchange)

/-- A program that performs two traces with a common continuation performs one and the same:
its answers determine where it ends, and how. -/
theorem Performs.unique {p : Program I α} {trace trace' : List ((op : I.Op) × I.Answer op)}
    {rest rest' : List ((op : I.Op) × I.Answer op)} {a a' : α} (h : Performs p trace a)
    (h' : Performs p trace' a') (heq : trace ++ rest = trace' ++ rest') :
    trace = trace' ∧ a = a' := by
  induction h generalizing trace' with
  | done a =>
    cases h'
    exact ⟨rfl, rfl⟩
  | step _ ih =>
    cases h' with
    | step htail' =>
      obtain ⟨hhead, htails⟩ := List.cons.inj heq
      cases hhead
      obtain ⟨rfl, rfl⟩ := ih htail' htails
      exact ⟨rfl, rfl⟩

instance : LawfulMonad (Program I) :=
  LawfulMonad.mk' (Program I)
    (by
      intro α p
      induction p with
      | done a => rfl
      | step op next ih => exact congrArg (Program.step op) (funext ih))
    (by
      intro α β a f
      rfl)
    (by
      intro α β γ p f g
      induction p with
      | done a => rfl
      | step op next ih => exact congrArg (Program.step op) (funext ih))

/-- What a program performs when its result is passed through a function. -/
theorem Performs.of_map {f : α → β} {p : Program I α} {trace : List ((op : I.Op) × I.Answer op)}
    {b : β} (h : Performs (f <$> p) trace b) : ∃ a, Performs p trace a ∧ f a = b := by
  rw [map_eq_pure_bind] at h
  induction p generalizing trace with
  | done a =>
    cases h
    exact ⟨a, .done a, rfl⟩
  | step op next ih =>
    change Performs (.step op fun answer => next answer >>= fun a => pure (f a)) trace b at h
    cases h with
    | step hrest =>
      obtain ⟨a, ha, hb⟩ := ih _ hrest
      exact ⟨a, .step ha, hb⟩

/-! ### Runs -/

section

variable {W : Type} (act : (op : I.Op) → W → I.Answer op × W)

theorem run_bind (p : Program I α) (f : α → Program I β) (w : W) :
    run act (p >>= f) w = run act (f (run act p w).1) (run act p w).2 := by
  induction p generalizing w with
  | done a => rfl
  | step op next ih => exact ih (act op w).1 (act op w).2

end

end Jobflow.Program
