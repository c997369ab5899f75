import Jobflow.Proofs.Program
import Jobflow.Proofs.Workflow.Variables

/-!
What the execution of a tree does under an arbitrary driver. The nodes of a
sequence are carried out in turn up to the first that does not let the run go on,
and its end is the end of the sequence; a branch carries out its condition and at
most one of its two trees. The variables at the end tell exactly whether and how
an exit was reached.
-/

namespace Jobflow.Workflow

/-- A driver of one page in a world with state `W`: what it answers to each
operation of a workflow, the world after that, and the calls on the page that the
operation takes. Delays are part of the world. -/
structure Driver (W : Type) where
  act : (op : Browse) → W → op.Answer × W
  calls : Browse → W → List Page.Call

/-- A program carried out to its end: the calls it made, in order, its result, and
the world it left behind. -/
structure Carried (W α : Type) where
  calls : List Page.Call
  result : α
  world : W

variable {W α β : Type}

/-- What is carried out first, and what is carried out from there. -/
def Carried.followedBy (first : Carried W α) (second : Carried W β) : Carried W β :=
  ⟨first.calls ++ second.calls, second.result, second.world⟩

namespace Driver

/-- Carries out a program. -/
def carryOut (d : Driver W) : Browsing α → W → Carried W α
  | .done a, w => ⟨[], a, w⟩
  | .step op next, w =>
    let rest := carryOut d (next (d.act op w).1) (d.act op w).2
    ⟨d.calls op w ++ rest.calls, rest.result, rest.world⟩

@[simp] theorem carryOut_pure (d : Driver W) (a : α) (w : W) :
    d.carryOut (pure a) w = ⟨[], a, w⟩ := rfl

@[simp] theorem carryOut_bind (d : Driver W) (p : Browsing α) (f : α → Browsing β) (w : W) :
    d.carryOut (p >>= f) w =
      (d.carryOut p w).followedBy
        (d.carryOut (f (d.carryOut p w).result) (d.carryOut p w).world) := by
  change d.carryOut (Program.bind p f) w = _
  induction p generalizing w with
  | done a => rfl
  | step op next ih =>
    have hrest := ih (d.act op w).1 (d.act op w).2
    simp only [Program.bind, carryOut, hrest, Carried.followedBy, List.append_assoc]

/-- Carrying out is running to the end, with the calls noted down. -/
theorem carryOut_run (d : Driver W) (p : Browsing α) (w : W) :
    ((d.carryOut p w).result, (d.carryOut p w).world) = Program.run d.act p w := by
  induction p generalizing w with
  | done a => rfl
  | step op next ih => exact ih _ _

/-- What a program yields is what it is carried out to by a driver with such answers. -/
theorem result_carryOut {P : α → Prop} {Q : (op : browsing.Op) → browsing.Answer op → Prop}
    {d : Driver W} (hd : ∀ op w, Q op (d.act op w).1) {p : Browsing α} (hp : Program.Yields Q P p)
    (w : W) : P (d.carryOut p w).result := by
  induction p generalizing w with
  | done a => exact hp
  | step op next ih => exact ih _ (hp _ (hd op w)) _

/-- A driver on whose page nothing can be done. -/
def failing : Driver Unit where
  act
    | .call _, w => (.error (.session ""), w)
    | .clickAwaiting .., w => (.error (.session ""), w)
    | .clickSettling .., w => (.error (.session ""), w)
    | .sleep _, w => ((), w)
    | .form id, w => (.error (.notFound id), w)
    | .makeDirectories _, w => (.error .notFound, w)
    | .freshName, w => ("", w)
  calls _ _ := []

/-- The driver that gives a certain answer at first, if it is asked for it, and goes on like `d`. -/
def answering (d : Driver W) (op : Browse) (answer : op.Answer) : Driver (Bool × W) where
  act other w :=
    if h : w.1 = true ∧ op = other then (h.2 ▸ answer, (false, w.2))
    else ((d.act other w.2).1, (false, (d.act other w.2).2))
  calls other w := d.calls other w.2

theorem carryOut_answering_later (d : Driver W) {op : Browse} (answer : op.Answer) (p : Browsing α)
    (w : W) : ((d.answering op answer).carryOut p (false, w)).result = (d.carryOut p w).result := by
  induction p generalizing w with
  | done a => rfl
  | step other next ih => exact ih _ _

theorem carryOut_answering (d : Driver W) {op : Browse} (answer : op.Answer)
    (next : op.Answer → Browsing α) (w : W) :
    ((d.answering op answer).carryOut (.step op next) (true, w)).result =
      (d.carryOut (next answer) w).result := by
  have hfirst : (d.answering op answer).act op (true, w) = (answer, (false, w)) :=
    dif_pos ⟨rfl, rfl⟩
  simp only [carryOut, hfirst]
  exact d.carryOut_answering_later answer (next answer) w

/-- What every driver brings about comes about whatever the answers are. -/
theorem yields_of_carryOut {P : α → Prop} {p : Browsing α}
    (h : ∀ (W : Type) (d : Driver W) (w : W), P (d.carryOut p w).result) :
    Program.Yields (fun _ _ => True) P p := by
  induction p with
  | done a => exact h Unit failing ()
  | step op next ih =>
    intro answer _
    refine ih answer fun W d w => ?_
    rw [← d.carryOut_answering answer next w]
    exact h _ _ _

end Driver

@[simp] theorem Ended.andThen_continue (ctx : Context) (next : Context → Browsing Ended) :
    (⟨.ok .continue, ctx⟩ : Ended).andThen next = next ctx := rfl

theorem Ended.andThen_of_ne {ended : Ended} (h : ended.result ≠ .ok .continue)
    (next : Context → Browsing Ended) : ended.andThen next = pure ended := by
  unfold Ended.andThen
  split
  · contradiction
  · rfl

/-! ### Sequences -/

/-- `Passed d children ctx w calls ctx' w'`: the nodes, carried out in turn, all let
the run go on, from `ctx` and `w` to `ctx'` and `w'`. -/
inductive Passed (d : Driver W) :
    List Command → Context → W → List Page.Call → Context → W → Prop
  | nil (ctx : Context) (w : W) : Passed d [] ctx w [] ctx w
  | cons {child : Command} {rest : List Command} {ctx ctx' ctx'' : Context} {w w' w'' : W}
      {calls calls' : List Page.Call} :
      d.carryOut (execute child ctx) w = ⟨calls, ⟨.ok .continue, ctx'⟩, w'⟩ →
      Passed d rest ctx' w' calls' ctx'' w'' →
      Passed d (child :: rest) ctx w (calls ++ calls') ctx'' w''

/-- The end of a list of nodes: all of them let the run go on, or the first that
does not ends the list with its own result, and no node after it is carried out. -/
def EndsAtFirst (d : Driver W) (children : List Command) (ctx : Context) (w : W)
    (ended : Carried W Ended) : Prop :=
  (∃ calls ctx' w', Passed d children ctx w calls ctx' w' ∧
    ended = ⟨calls, ⟨.ok .continue, ctx'⟩, w'⟩) ∨
  (∃ before child after calls ctx' w', children = before ++ child :: after ∧
    Passed d before ctx w calls ctx' w' ∧
    (d.carryOut (execute child ctx') w').result.result ≠ .ok .continue ∧
    ended = ⟨calls ++ (d.carryOut (execute child ctx') w').calls,
      (d.carryOut (execute child ctx') w').result, (d.carryOut (execute child ctx') w').world⟩)

theorem executeAll_endsAtFirst (d : Driver W) (children : List Command) (ctx : Context) (w : W) :
    EndsAtFirst d children ctx w (d.carryOut (executeAll children ctx) w) := by
  induction children generalizing ctx w with
  | nil => exact Or.inl ⟨[], ctx, w, .nil ctx w, rfl⟩
  | cons child rest ih =>
    have heq : d.carryOut (executeAll (child :: rest) ctx) w =
        (d.carryOut (execute child ctx) w).followedBy
          (d.carryOut ((d.carryOut (execute child ctx) w).result.andThen (executeAll rest))
            (d.carryOut (execute child ctx) w).world) := by
      rw [executeAll, Driver.carryOut_bind]
    -- either the first node lets the run go on, and the rest decides, or it is the last one
    by_cases hgo : (d.carryOut (execute child ctx) w).result.result = .ok .continue
    · generalize hchild : d.carryOut (execute child ctx) w = first at heq hgo
      obtain ⟨calls, ⟨result, ctx'⟩, w'⟩ := first
      obtain rfl : result = .ok .continue := hgo
      rw [heq]
      rcases ih ctx' w' with ⟨calls', ctx'', w'', hpassed, hend⟩ |
        ⟨before, last, after, calls', ctx'', w'', hsplit, hpassed, hstop, hend⟩
      · refine Or.inl ⟨calls ++ calls', ctx'', w'', .cons hchild hpassed, ?_⟩
        rw [Ended.andThen_continue, hend, Carried.followedBy]
      · refine Or.inr ⟨child :: before, last, after, calls ++ calls', ctx'', w'', ?_,
          .cons hchild hpassed, hstop, ?_⟩
        · rw [hsplit, List.cons_append]
        · rw [Ended.andThen_continue, hend, Carried.followedBy, List.append_assoc]
    · refine Or.inr ⟨[], child, rest, [], ctx, w, rfl, .nil ctx w, hgo, ?_⟩
      rw [heq, Ended.andThen_of_ne hgo, Driver.carryOut_pure, Carried.followedBy,
        List.append_nil, List.nil_append]

/-! ### Branches -/

/-- The end of a branch, given that of its condition: a condition that does not let
the run go on ends the branch with its own result, one without a verdict is a
failure, and otherwise the tree of the verdict is carried out, if there is one. -/
inductive EndsBranch (d : Driver W) (whenTrue : Command) (whenFalse : Option Command)
    (judged : Carried W Ended) : Carried W Ended → Prop
  | condition : judged.result.result ≠ .ok .continue → EndsBranch d whenTrue whenFalse judged judged
  | noVerdict : judged.result.result = .ok .continue →
      judged.result.context.flag? conditionResult = none →
      EndsBranch d whenTrue whenFalse judged
        ⟨judged.calls, ⟨.error .conditionNotSet, judged.result.context⟩, judged.world⟩
  | whenTrue : judged.result.result = .ok .continue →
      judged.result.context.flag? conditionResult = some true →
      EndsBranch d whenTrue whenFalse judged
        (judged.followedBy (d.carryOut (execute whenTrue judged.result.context) judged.world))
  | whenFalse (command : Command) : judged.result.result = .ok .continue →
      judged.result.context.flag? conditionResult = some false → whenFalse = some command →
      EndsBranch d whenTrue whenFalse judged
        (judged.followedBy (d.carryOut (execute command judged.result.context) judged.world))
  | noElse : judged.result.result = .ok .continue →
      judged.result.context.flag? conditionResult = some false → whenFalse = none →
      EndsBranch d whenTrue whenFalse judged judged

theorem execute_endsBranch (d : Driver W) (condition whenTrue : Command)
    (whenFalse : Option Command) (ctx : Context) (w : W) :
    EndsBranch d whenTrue whenFalse
      (d.carryOut (execute condition (ctx.remove conditionResult)) w)
      (d.carryOut (execute (.ifElse condition whenTrue whenFalse) ctx) w) := by
  rw [execute, Driver.carryOut_bind]
  generalize d.carryOut (execute condition (ctx.remove conditionResult)) w = judged
  by_cases hgo : judged.result.result = .ok .continue
  · obtain ⟨calls, ⟨result, ctx'⟩, w'⟩ := judged
    obtain rfl : result = .ok .continue := hgo
    rw [Ended.andThen_continue, byVerdict]
    split
    · next hverdict => exact .whenTrue rfl hverdict
    · next hverdict =>
      cases whenFalse with
      | none =>
        rw [executeElse, Driver.carryOut_pure, Carried.followedBy, List.append_nil]
        exact .noElse rfl hverdict rfl
      | some command => exact .whenFalse command rfl hverdict rfl
    · next hverdict =>
      rw [Driver.carryOut_pure, Carried.followedBy, List.append_nil]
      exact .noVerdict rfl hverdict
  · rw [Ended.andThen_of_ne hgo, Driver.carryOut_pure, Carried.followedBy, List.append_nil]
    exact .condition hgo

/-! ### Variables -/

/-- What the variables at the end of an execution tell, given those at its start: an
exit bound its outcome, and its message if it has one; without an exit both are as
they were. No other variable but the verdict of conditions has changed. -/
structure Accounts (start : Context) (ended : Ended) : Prop where
  terminated : ∀ success message, ended.result = .ok (.terminated success message) →
    ended.context.get? finishedSuccessfully = some (.flag success) ∧
    ended.context.get? finishedMessage =
      (match message with
        | some text => some (.text text)
        | none => start.get? finishedMessage)
  unfinished : (∀ success message, ended.result ≠ .ok (.terminated success message)) →
    ended.context.get? finishedSuccessfully = start.get? finishedSuccessfully ∧
    ended.context.get? finishedMessage = start.get? finishedMessage
  others : ∀ name, name ≠ finishedSuccessfully → name ≠ finishedMessage →
    name ≠ conditionResult → ended.context.get? name = start.get? name

/-- An end without an exit is accounted for when only the verdict has changed. -/
theorem accounts_of_agree {start : Context} {ended : Ended}
    (hflow : ∀ success message, ended.result ≠ .ok (.terminated success message))
    (hagree : ∀ name, name ≠ conditionResult → ended.context.get? name = start.get? name) :
    Accounts start ended where
  terminated success message h := absurd h (hflow success message)
  unfinished _ := ⟨hagree _ (by decide), hagree _ (by decide)⟩
  others name _ _ hname := hagree name hname

/-- What follows a node that let the run go on is accounted for from its start. -/
theorem Accounts.trans {start middle : Context} {ended : Ended}
    (hfirst : Accounts start ⟨.ok .continue, middle⟩) (hrest : Accounts middle ended) :
    Accounts start ended := by
  obtain ⟨hsuccess, hmessage⟩ := hfirst.unfinished (by simp)
  constructor
  · intro success message hended
    rw [← hmessage]
    exact hrest.terminated success message hended
  · intro hended
    rw [← hsuccess, ← hmessage]
    exact hrest.unfinished hended
  · intro name h h' h''
    rw [hrest.others name h h' h'', hfirst.others name h h' h'']

theorem accounts_remove (ctx : Context) :
    Accounts ctx ⟨.ok .continue, ctx.remove conditionResult⟩ :=
  accounts_of_agree (by simp) fun _ hname => Context.get?_remove_of_ne ctx hname

theorem accounts_continued (d : Driver W) (ctx : Context)
    (step : Browsing (Except FlowError Unit)) (w : W) :
    Accounts ctx (d.carryOut (continued ctx step) w).result := by
  rw [continued, Driver.carryOut_bind]
  generalize d.carryOut step w = taken
  obtain ⟨calls, result, w'⟩ := taken
  cases result with
  | ok a => exact accounts_of_agree (by simp [Carried.followedBy]) fun _ _ => rfl
  | error e => exact accounts_of_agree (by simp [Carried.followedBy]) fun _ _ => rfl

theorem accounts_judge (d : Driver W) (ctx : Context) (selector : String)
    (settle : Option Time.Duration) (w : W) :
    Accounts ctx (d.carryOut (judge ctx selector settle) w).result := by
  cases settle with
  | none =>
    simp only [judge, Driver.carryOut_bind, Driver.carryOut_pure, Carried.followedBy]
    exact accounts_of_agree (by simp) fun _ hname => Context.get?_setFlag_of_ne ctx hname _
  | some duration =>
    simp only [judge, Driver.carryOut_bind, Driver.carryOut_pure, Carried.followedBy]
    exact accounts_of_agree (by simp) fun _ hname => Context.get?_setFlag_of_ne ctx hname _

theorem accounts_exit (ctx : Context) (success : Bool) (message : Option String) :
    Accounts ctx ⟨.ok (.terminated success message), exitContext ctx success message⟩ := by
  constructor
  · intro success' message' h
    obtain ⟨rfl, rfl⟩ : success = success' ∧ message = message' := by simpa using h
    cases message with
    | none =>
      exact ⟨Context.get?_setFlag_self .., Context.get?_setFlag_of_ne ctx (by decide) success⟩
    | some text =>
      refine ⟨?_, Context.get?_setText_self ..⟩
      rw [exitContext, Context.get?_setText_of_ne _ (by decide), Context.get?_setFlag_self]
  · intro hended
    exact absurd rfl (hended success message)
  · intro name h h' _
    cases message with
    | none => exact Context.get?_setFlag_of_ne ctx h success
    | some text => rw [exitContext, Context.get?_setText_of_ne _ h', Context.get?_setFlag_of_ne _ h]

theorem accounts_andThen {d : Driver W} {start : Context} {ended : Ended}
    {next : Context → Browsing Ended} {w : W} (hended : Accounts start ended)
    (hnext : ∀ ctx w, Accounts ctx (d.carryOut (next ctx) w).result) :
    Accounts start (d.carryOut (ended.andThen next) w).result := by
  by_cases hgo : ended.result = .ok .continue
  · obtain ⟨result, ctx⟩ := ended
    obtain rfl : result = .ok .continue := hgo
    exact hended.trans (hnext ctx w)
  · rw [Ended.andThen_of_ne hgo, Driver.carryOut_pure]
    exact hended

theorem accounts_byVerdict {d : Driver W} {whenTrue whenFalse : Context → Browsing Ended}
    (htrue : ∀ ctx w, Accounts ctx (d.carryOut (whenTrue ctx) w).result)
    (hfalse : ∀ ctx w, Accounts ctx (d.carryOut (whenFalse ctx) w).result) (ctx : Context) (w : W) :
    Accounts ctx (d.carryOut (byVerdict whenTrue whenFalse ctx) w).result := by
  unfold byVerdict
  split
  · exact htrue ctx w
  · exact hfalse ctx w
  · exact accounts_of_agree (by simp) fun _ _ => rfl

mutual

theorem accounts_execute (d : Driver W) (command : Command) (ctx : Context) (w : W) :
    Accounts ctx (d.carryOut (execute command ctx) w).result := by
  cases command with
  | sequence children =>
    rw [execute]
    exact accounts_executeAll d children ctx w
  | ifElse condition whenTrue whenFalse =>
    rw [execute, Driver.carryOut_bind]
    refine accounts_andThen ?_ (accounts_byVerdict ?_ ?_)
    · exact (accounts_remove ctx).trans (accounts_execute d condition _ w)
    · exact fun ctx w => accounts_execute d whenTrue ctx w
    · exact fun ctx w => accounts_executeElse d whenFalse ctx w
  | navigate url readiness => exact accounts_continued ..
  | click selector timeout after => exact accounts_continued ..
  | elementExists selector settle => exact accounts_judge ..
  | fillForm id => exact accounts_continued ..
  | exit success message => exact accounts_exit ctx success (message.filter (· ≠ ""))
  | screenshot pathTemplate => exact accounts_continued ..

theorem accounts_executeAll (d : Driver W) (children : List Command) (ctx : Context) (w : W) :
    Accounts ctx (d.carryOut (executeAll children ctx) w).result := by
  cases children with
  | nil => exact accounts_of_agree (by simp [executeAll]) fun _ _ => rfl
  | cons child rest =>
    rw [executeAll, Driver.carryOut_bind]
    exact accounts_andThen (accounts_execute d child ctx w)
      fun ctx w => accounts_executeAll d rest ctx w

theorem accounts_executeElse (d : Driver W) (whenFalse : Option Command) (ctx : Context) (w : W) :
    Accounts ctx (d.carryOut (executeElse whenFalse ctx) w).result := by
  cases whenFalse with
  | none => exact accounts_of_agree (by simp [executeElse]) fun _ _ => rfl
  | some command =>
    rw [executeElse]
    exact accounts_execute d command ctx w

end

/-- The variables account for the end of an execution whatever the answers are. -/
theorem accounts_of_performs {command : Command} {ctx : Context}
    {trace : List ((op : browsing.Op) × browsing.Answer op)} {ended : Ended}
    (h : Program.Performs (execute command ctx) trace ended) : Accounts ctx ended :=
  h.yields (Driver.yields_of_carryOut fun _ d w => accounts_execute d command ctx w)
    fun _ _ => trivial

/-- Execution stops at the first node that does not let the run go on, and its
variables account for how it ended, whatever the driver does. -/
theorem execute_stops_at_first (d : Driver W) (ctx : Context) (w : W) :
    (∀ children, EndsAtFirst d children ctx w (d.carryOut (execute (.sequence children) ctx) w)) ∧
    (∀ condition whenTrue whenFalse, EndsBranch d whenTrue whenFalse
      (d.carryOut (execute condition (ctx.remove conditionResult)) w)
      (d.carryOut (execute (.ifElse condition whenTrue whenFalse) ctx) w)) ∧
    (∀ command, Accounts ctx (d.carryOut (execute command ctx) w).result) := by
  refine ⟨?_, ?_, ?_⟩
  · intro children
    rw [execute]
    exact executeAll_endsAtFirst d children ctx w
  · intro condition whenTrue whenFalse
    exact execute_endsBranch d condition whenTrue whenFalse ctx w
  · intro command
    exact accounts_execute d command ctx w

end Jobflow.Workflow
