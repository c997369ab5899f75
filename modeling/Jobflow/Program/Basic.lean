/-!
Programs that act on a world through named operations. A program is a tree: it
is done, or it performs one operation and goes on depending on the answer. What
the operations do is left to whoever runs the program, so a statement about the
tree holds for every world.
-/

namespace Jobflow

/-- The operations a program may perform, each with the type of its answer. -/
structure Interface where
  Op : Type
  Answer : Op → Type

/-- A program over an interface. -/
inductive Program (I : Interface) (α : Type) : Type where
  | done (result : α)
  | step (op : I.Op) (next : I.Answer op → Program I α)

namespace Program

variable {I J : Interface} {α β : Type}

def perform (op : I.Op) : Program I (I.Answer op) := .step op .done

/-- Runs one program and then another that depends on its result. -/
def bind : Program I α → (α → Program I β) → Program I β
  | .done a, f => f a
  | .step op next, f => .step op fun answer => bind (next answer) f

instance : Monad (Program I) where
  pure := .done
  bind := bind

/-- The program with every operation replaced by a program over another
interface. -/
def translate (f : (op : I.Op) → Program J (I.Answer op)) : Program I α → Program J α
  | .done a => .done a
  | .step op next => bind (f op) fun answer => translate f (next answer)

/-- Runs a program to its end in a world with state `W`, without interruption. -/
def run {W : Type} (act : (op : I.Op) → W → I.Answer op × W) : Program I α → W → α × W
  | .done a, w => (a, w)
  | .step op next, w =>
    let (answer, w) := act op w
    run act (next answer) w

/-- `Performs p trace a`: some world answers the operations of `p` as in
`trace`, and then the result is `a`. -/
inductive Performs : Program I α → List ((op : I.Op) × I.Answer op) → α → Prop where
  | done (a : α) : Performs (.done a) [] a
  | step {op : I.Op} {next : I.Answer op → Program I α} {answer : I.Answer op}
      {trace : List ((op : I.Op) × I.Answer op)} {a : α} :
      Performs (next answer) trace a → Performs (.step op next) (⟨op, answer⟩ :: trace) a

/-- `p.After q`: `p` is what remains of `q` after its first operation. -/
inductive After : Program I α → Program I α → Prop where
  | intro (op : I.Op) (next : I.Answer op → Program I α) (answer : I.Answer op) :
      After (next answer) (.step op next)

theorem after_acc (p : Program I α) : Acc After p := by
  induction p with
  | done a => exact ⟨_, fun _ h => by cases h⟩
  | step op next ih => exact ⟨_, fun _ h => by cases h with | intro _ _ answer => exact ih answer⟩

/-- Every program comes to its end, whatever the answers are. -/
theorem after_wellFounded : WellFounded (@After I α) := ⟨after_acc⟩

end Program

end Jobflow
