import Jobflow.Proofs.Workflow.Execution

/-!
Executions one after another. Putting one after another is associative, and an execution that
only lets the run go on is neutral; a choice by the verdict hands what follows it on to either
tree. Sequences and branches are put together so from the executions of their parts, what they yield
follows from what the parts yield, and what is kept in putting them together holds of all trees.
-/

namespace Jobflow.Workflow

/-! ### One execution after another -/

/-- Carries out one execution and then another from the variables that it leaves, if it lets the
run go on. -/
def inTurn (first next : Context → Browsing Ended) : Context → Browsing Ended := fun ctx => do
  let ended ← first ctx
  ended.andThen next

/-- Lets the run go on. -/
def idle : Context → Browsing Ended := fun ctx => return ⟨.ok .continue, ctx⟩

theorem Ended.andThen_idle (ended : Ended) : ended.andThen idle = pure ended := by
  by_cases hgo : ended.result = .ok .continue
  · obtain ⟨result, ctx⟩ := ended
    obtain rfl : result = .ok .continue := hgo
    rfl
  · exact Ended.andThen_of_ne hgo idle

theorem Ended.andThen_inTurn (ended : Ended) (first next : Context → Browsing Ended) :
    ended.andThen (inTurn first next) =
      ended.andThen first >>= fun later => later.andThen next := by
  by_cases hgo : ended.result = .ok .continue
  · obtain ⟨result, ctx⟩ := ended
    obtain rfl : result = .ok .continue := hgo
    rfl
  · rw [Ended.andThen_of_ne hgo, Ended.andThen_of_ne hgo, pure_bind, Ended.andThen_of_ne hgo]

theorem inTurn_assoc (first second third : Context → Browsing Ended) :
    inTurn (inTurn first second) third = inTurn first (inTurn second third) := by
  funext ctx
  simp only [inTurn, bind_assoc, Ended.andThen_inTurn]

@[simp] theorem idle_inTurn (next : Context → Browsing Ended) : inTurn idle next = next := by
  funext ctx
  simp only [inTurn, idle, pure_bind, Ended.andThen_continue]

@[simp] theorem inTurn_idle (first : Context → Browsing Ended) : inTurn first idle = first := by
  funext ctx
  simp only [inTurn, Ended.andThen_idle, bind_pure]

/-- What follows a choice by the verdict follows either tree. -/
theorem byVerdict_inTurn (whenTrue whenFalse next : Context → Browsing Ended) :
    inTurn (byVerdict whenTrue whenFalse) next =
      byVerdict (inTurn whenTrue next) (inTurn whenFalse next) := by
  funext ctx
  simp only [inTurn, byVerdict]
  split
  · rfl
  · rfl
  · rw [pure_bind, Ended.andThen_of_ne (by simp)]

/-! ### What executions yield -/

section
variable {Q : (op : browsing.Op) → browsing.Answer op → Prop} {P R : Ended → Prop}
  {first next whenTrue whenFalse : Context → Browsing Ended} {ctx : Context}

/-- Two executions in turn end with the first if it does not let the run go on, and with the
second otherwise. -/
theorem yields_inTurn (hfirst : Program.Yields Q P (first ctx))
    (hgo : ∀ middle, P ⟨.ok .continue, middle⟩ → Program.Yields Q R (next middle))
    (hend : ∀ ended, P ended → ended.result ≠ .ok .continue → R ended) :
    Program.Yields Q R (inTurn first next ctx) := by
  refine hfirst.bind fun ended hended => ?_
  by_cases hresult : ended.result = .ok .continue
  · obtain ⟨result, middle⟩ := ended
    obtain rfl : result = .ok .continue := hresult
    exact hgo middle hended
  · rw [Ended.andThen_of_ne hresult]
    exact Program.yields_pure (hend ended hended hresult)

/-- A node that changes no variable ends as its step does. -/
theorem yields_continued {P : Except FlowError Unit → Prop}
    {step : Browsing (Except FlowError Unit)} (hstep : Program.Yields Q P step)
    (hok : P (.ok ()) → R ⟨.ok .continue, ctx⟩) (herror : ∀ e, P (.error e) → R ⟨.error e, ctx⟩) :
    Program.Yields Q R (continued ctx step) := by
  refine hstep.bind fun result hresult => ?_
  cases result with
  | ok => exact Program.yields_pure (hok hresult)
  | error e => exact Program.yields_pure (herror e hresult)

/-- A count lets the run go on, however long the page is given to settle before it. -/
theorem yields_judge {selector : String} {settle : Option Time.Duration}
    (h : ∀ counted, R ⟨.ok .continue, ctx.setFlag conditionResult (anyCounted counted)⟩) :
    Program.Yields Q R (judge ctx selector settle) := by
  cases settle with
  | none => exact (Program.yields_true _).bind fun _ _ => Program.yields_pure (h _)
  | some duration =>
    exact (Program.yields_true _).bind fun _ _ => (Program.yields_true _).bind fun _ _ =>
      Program.yields_pure (h _)

theorem yields_byVerdict
    (htrue : ctx.flag? conditionResult = some true → Program.Yields Q R (whenTrue ctx))
    (hfalse : ctx.flag? conditionResult = some false → Program.Yields Q R (whenFalse ctx))
    (hnone : ctx.flag? conditionResult = none → R ⟨.error .conditionNotSet, ctx⟩) :
    Program.Yields Q R (byVerdict whenTrue whenFalse ctx) := by
  unfold byVerdict
  split
  · next hverdict => exact htrue hverdict
  · next hverdict => exact hfalse hverdict
  · next hverdict => exact Program.yields_pure (hnone hverdict)

end

/-! ### Trees -/

theorem execute_sequence (children : List Command) :
    execute (.sequence children) = executeAll children := by
  funext ctx
  rw [execute]

theorem execute_ifElse (condition whenTrue : Command) (whenFalse : Option Command) :
    execute (.ifElse condition whenTrue whenFalse) = fun ctx =>
      inTurn (execute condition) (byVerdict (execute whenTrue) (executeElse whenFalse))
        (ctx.remove conditionResult) := by
  funext ctx
  rw [execute, inTurn]

theorem executeAll_nil : executeAll [] = idle := by
  funext ctx
  rw [executeAll, idle]

theorem executeAll_cons (child : Command) (rest : List Command) :
    executeAll (child :: rest) = inTurn (execute child) (executeAll rest) := by
  funext ctx
  rw [executeAll, inTurn]

theorem executeElse_none : executeElse none = idle := by
  funext ctx
  rw [executeElse, idle]

theorem executeElse_some (command : Command) :
    executeElse (some command) = execute command := by
  funext ctx
  rw [executeElse]

theorem executeAll_append (first rest : List Command) :
    executeAll (first ++ rest) = inTurn (executeAll first) (executeAll rest) := by
  induction first with
  | nil => rw [List.nil_append, executeAll_nil, idle_inTurn]
  | cons child first ih => rw [List.cons_append, executeAll_cons, executeAll_cons, ih, inTurn_assoc]

/-! ### Induction over trees -/

namespace Command

/-- Whether the node holds no others. -/
def isLeaf : Command → Bool
  | .sequence _ | .ifElse .. => false
  | _ => true

end Command

/-- `P` holds of the executions of all nodes that hold no others, and of what is put together from
executions of which it holds. -/
structure Compositional (P : (Context → Browsing Ended) → Prop) : Prop where
  empty : P idle
  sequence : ∀ {first next}, P first → P next → P (inTurn first next)
  branch : ∀ {condition whenTrue whenFalse}, P condition → P whenTrue → P whenFalse →
    P fun ctx => inTurn condition (byVerdict whenTrue whenFalse) (ctx.remove conditionResult)
  leaf : ∀ command : Command, command.isLeaf → P (execute command)

section
variable {P : (Context → Browsing Ended) → Prop}

mutual

/-- So it holds of the executions of all trees. -/
theorem Compositional.execute (h : Compositional P) (command : Command) : P (execute command) := by
  cases command with
  | sequence children =>
    rw [execute_sequence]
    exact h.executeAll children
  | ifElse condition whenTrue whenFalse =>
    rw [execute_ifElse]
    refine h.branch (h.execute condition) (h.execute whenTrue) ?_
    cases whenFalse with
    | none =>
      rw [executeElse_none]
      exact h.empty
    | some whenFalse =>
      rw [executeElse_some]
      exact h.execute whenFalse
  | _ => exact h.leaf _ rfl

theorem Compositional.executeAll (h : Compositional P) (children : List Command) :
    P (executeAll children) := by
  cases children with
  | nil =>
    rw [executeAll_nil]
    exact h.empty
  | cons child rest =>
    rw [executeAll_cons]
    exact h.sequence (h.execute child) (h.executeAll rest)

end

end

end Jobflow.Workflow
