import Jobflow.Page.Together

/-!
Two calls at the same time, watched a millisecond at a time: they are over as soon as one has
failed, or when both are answered. From that follows when they are over, at the earliest failure or
at the later answer. A page answers a call with a wait alongside in this way.
-/

namespace Jobflow.Page

variable {α β : Type}

namespace Reply

/-- What is left of a reply a millisecond later; one that is there stays. -/
def later (reply : Reply α) : Reply α := ⟨reply.delay - 1, reply.result⟩

/-- The call has failed by now. -/
def HasFailed (reply : Reply α) : Prop := reply.delay = 0 ∧ ∃ e, reply.result = .error e

theorem delay_pos_of_not_hasFailed {reply : Reply α} {e : PageError} (h : ¬ reply.HasFailed)
    (he : reply.result = .error e) : 0 < reply.delay :=
  Nat.pos_of_ne_zero fun hdelay => h ⟨hdelay, e, he⟩

end Reply

/-- `Joins first second elapsed result`: two calls that were made at the same time are over after
`elapsed` milliseconds. Whether the first or the second of two failures of one instant is
reported is left open. -/
inductive Joins : Reply α → Reply β → Nat → Except PageError β → Prop
  | firstFails {first : Reply α} {second : Reply β} {e : PageError} :
      first.delay = 0 → first.result = .error e → Joins first second 0 (.error e)
  | secondFails {first : Reply α} {second : Reply β} {e : PageError} :
      second.delay = 0 → second.result = .error e → Joins first second 0 (.error e)
  | bothOver {first : Reply α} {second : Reply β} {a : α} {b : β} :
      first.delay = 0 → first.result = .ok a → second.delay = 0 → second.result = .ok b →
      Joins first second 0 (.ok b)
  | tick {first : Reply α} {second : Reply β} {elapsed : Nat} {result : Except PageError β} :
      ¬ first.HasFailed → ¬ second.HasFailed → 0 < first.delay ∨ 0 < second.delay →
      Joins first.later second.later elapsed result → Joins first second (elapsed + 1) result

/-! ### When two calls are over -/

section
variable {first : Reply α} {second : Reply β} {elapsed : Nat} {result : Except PageError β}

theorem Joins.of_first_error {e : PageError} (h : Joins first second elapsed result)
    (he : first.result = .error e)
    (hearlier : ∀ f, second.result = .error f → first.delay < second.delay) :
    elapsed = first.delay ∧ result = .error e := by
  induction h with
  | firstFails hdelay hresult =>
    rw [hresult] at he
    exact ⟨hdelay.symm, congrArg _ (Except.error.inj he)⟩
  | secondFails hdelay hresult =>
    have hlt := hearlier _ hresult
    omega
  | bothOver _ hresult =>
    rw [hresult] at he
    cases he
  | tick hfirst _ _ _ ih =>
    have hpos := Reply.delay_pos_of_not_hasFailed hfirst he
    obtain ⟨helapsed, hresult⟩ := ih he fun f hf => by
      have hlt := hearlier f hf
      simp only [Reply.later]
      omega
    refine ⟨?_, hresult⟩
    rw [helapsed]
    exact Nat.sub_add_cancel hpos

theorem Joins.of_second_error {f : PageError} (h : Joins first second elapsed result)
    (hf : second.result = .error f)
    (hearlier : ∀ e, first.result = .error e → second.delay < first.delay) :
    elapsed = second.delay ∧ result = .error f := by
  induction h with
  | firstFails hdelay hresult =>
    have hlt := hearlier _ hresult
    omega
  | secondFails hdelay hresult =>
    rw [hresult] at hf
    exact ⟨hdelay.symm, congrArg _ (Except.error.inj hf)⟩
  | bothOver _ _ _ hresult =>
    rw [hresult] at hf
    cases hf
  | tick _ hsecond _ _ ih =>
    have hpos := Reply.delay_pos_of_not_hasFailed hsecond hf
    obtain ⟨helapsed, hresult⟩ := ih hf fun e he => by
      have hlt := hearlier e he
      simp only [Reply.later]
      omega
    refine ⟨?_, hresult⟩
    rw [helapsed]
    exact Nat.sub_add_cancel hpos

theorem Joins.of_ok {a : α} {b : β} (h : Joins first second elapsed result)
    (ha : first.result = .ok a) (hb : second.result = .ok b) :
    elapsed = max first.delay second.delay ∧ result = .ok b := by
  induction h with
  | firstFails _ hresult =>
    rw [hresult] at ha
    cases ha
  | secondFails _ hresult =>
    rw [hresult] at hb
    cases hb
  | bothOver hfirst _ hsecond hresult =>
    rw [hresult] at hb
    rw [hfirst, hsecond]
    exact ⟨rfl, congrArg _ (Except.ok.inj hb)⟩
  | tick _ _ hrunning _ ih =>
    obtain ⟨helapsed, hresult⟩ := ih ha hb
    refine ⟨?_, hresult⟩
    rw [helapsed]
    simp only [Reply.later]
    omega

/-! ### Calls with a wait alongside -/

/-- As long as neither call has failed, the reply to both comes a millisecond closer with each
millisecond. -/
theorem Reply.alongside_later (hfirst : ¬ first.HasFailed) (hsecond : ¬ second.HasFailed)
    (hrunning : 0 < first.delay ∨ 0 < second.delay) :
    first.alongside second =
      ⟨(first.later.alongside second.later).delay + 1,
        (first.later.alongside second.later).result⟩ := by
  obtain ⟨c, made⟩ := first
  obtain ⟨w, seen⟩ := second
  cases made with
  | ok a =>
    cases seen with
    | ok b =>
      have hmax : max c w = max (c - 1) (w - 1) + 1 := by
        dsimp only at hrunning
        omega
      exact congrArg (Reply.mk · _) hmax
    | error f =>
      have hw : 0 < w := Reply.delay_pos_of_not_hasFailed hsecond rfl
      exact congrArg (Reply.mk · _) (Nat.sub_add_cancel hw).symm
  | error e =>
    have hc : 0 < c := Reply.delay_pos_of_not_hasFailed hfirst rfl
    cases seen with
    | ok b => exact congrArg (Reply.mk · _) (Nat.sub_add_cancel hc).symm
    | error f =>
      have hw : 0 < w := Reply.delay_pos_of_not_hasFailed hsecond rfl
      by_cases hlt : c < w
      · have hlater : c - 1 < w - 1 := by omega
        simp only [alongside, later, hlt, hlater, if_true, Nat.sub_add_cancel hc]
      · have hlater : ¬ c - 1 < w - 1 := by omega
        simp only [alongside, later, hlt, hlater, if_false, Nat.sub_add_cancel hw]

theorem alongside_of_bothOver {a : α} {b : β} (hfirst : first.delay = 0)
    (ha : first.result = .ok a) (hsecond : second.delay = 0) (hb : second.result = .ok b) :
    first.alongside second = ⟨0, .ok b⟩ := by
  simp only [Reply.alongside, ha, hb, hfirst, hsecond, Nat.max_self]

theorem alongside_of_firstFailed {e : PageError} (hdelay : first.delay = 0)
    (he : first.result = .error e) (hsecond : ¬ second.HasFailed) :
    first.alongside second = ⟨0, .error e⟩ := by
  cases hresult : second.result with
  | ok b => simp only [Reply.alongside, he, hresult, hdelay]
  | error f =>
    have hpos := Reply.delay_pos_of_not_hasFailed hsecond hresult
    simp only [Reply.alongside, he, hresult, hdelay, if_pos hpos]

theorem alongside_of_secondFailed {f : PageError} (hdelay : second.delay = 0)
    (hf : second.result = .error f) : first.alongside second = ⟨0, .error f⟩ := by
  cases hresult : first.result with
  | ok a => simp only [Reply.alongside, hf, hresult, hdelay]
  | error e => simp only [Reply.alongside, hf, hresult, hdelay, if_neg (Nat.not_lt_zero _)]

end

theorem joins_alongside (first : Reply α) (second : Reply β) :
    Joins first second (first.alongside second).delay (first.alongside second).result := by
  -- on the time that is left until both have answered
  induction hn : first.delay + second.delay using Nat.strongRecOn generalizing first second with
  | ind n ih =>
    by_cases hsecond : second.HasFailed
    · obtain ⟨hdelay, f, hf⟩ := hsecond
      rw [alongside_of_secondFailed hdelay hf]
      exact .secondFails hdelay hf
    · by_cases hfirst : first.HasFailed
      · obtain ⟨hdelay, e, he⟩ := hfirst
        rw [alongside_of_firstFailed hdelay he hsecond]
        exact .firstFails hdelay he
      · by_cases hrunning : 0 < first.delay ∨ 0 < second.delay
        · rw [Reply.alongside_later hfirst hsecond hrunning]
          refine .tick hfirst hsecond hrunning (ih _ ?_ first.later second.later rfl)
          simp only [Reply.later]
          omega
        · obtain ⟨hc, hw⟩ : first.delay = 0 ∧ second.delay = 0 := by omega
          cases ha : first.result with
          | error e => exact absurd ⟨hc, e, ha⟩ hfirst
          | ok a =>
            cases hb : second.result with
            | error f => exact absurd ⟨hw, f, hb⟩ hsecond
            | ok b =>
              rw [alongside_of_bothOver hc ha hw hb]
              exact .bothOver hc ha hw hb

/-- `Overlaps first second started elapsed result`: a call, with a wait that is `started` unless the
call fails without delay, is over after `elapsed` milliseconds. -/
inductive Overlaps (first : Reply α) (second : Reply β) : Bool → Nat → Except PageError β → Prop
  | alone {e : PageError} : first.delay = 0 → first.result = .error e →
      Overlaps first second false 0 (.error e)
  | both {elapsed : Nat} {result : Except PageError β} : ¬ first.HasFailed →
      Joins first second elapsed result → Overlaps first second true elapsed result

theorem overlaps_makeWith (page : Behaviour) (history : List Call) (call wait : Call) :
    ∃ started,
      Overlaps (page.answer history call) (page.answer (history ++ [call]) wait) started
        (page.makeWith history call wait).reply.delay
        (page.makeWith history call wait).reply.result ∧
      (page.makeWith history call wait).history =
        history ++ if started then [call, wait] else [call] := by
  have hjoins := joins_alongside (page.answer history call) (page.answer (history ++ [call]) wait)
  cases hresult : (page.answer history call).result with
  | ok a =>
    refine ⟨true, ?_⟩
    have hrunning : ¬ (page.answer history call).HasFailed := fun ⟨_, e, he⟩ => by
      rw [hresult] at he
      cases he
    simp only [Behaviour.makeWith, hresult]
    exact ⟨.both hrunning hjoins, rfl⟩
  | error e =>
    by_cases hdelay : (page.answer history call).delay = 0
    · refine ⟨false, ?_⟩
      simp only [Behaviour.makeWith, hresult, if_pos hdelay]
      exact ⟨.alone hdelay hresult, rfl⟩
    · refine ⟨true, ?_⟩
      simp only [Behaviour.makeWith, hresult, if_neg hdelay]
      exact ⟨.both (fun hfailed => hdelay hfailed.1) hjoins, rfl⟩

end Jobflow.Page
