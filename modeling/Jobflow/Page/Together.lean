import Jobflow.Page.Call

/-!
A click with a wait alongside. The click is made first, and the wait unless the
click fails at once; the first failure ends both, and otherwise both are waited
for.
-/

namespace Jobflow.Page

variable {α β : Type}

/-- The reply to two calls that were made at the same time: the earlier failure,
that of the second on a tie, or the value of the second when both are over. -/
def Reply.alongside (first : Reply α) (second : Reply β) : Reply β :=
  match first.result, second.result with
  | .ok _, .ok b => ⟨max first.delay second.delay, .ok b⟩
  | .error e, .ok _ => ⟨first.delay, .error e⟩
  | .ok _, .error e => ⟨second.delay, .error e⟩
  | .error e, .error f =>
    if first.delay < second.delay then ⟨first.delay, .error e⟩ else ⟨second.delay, .error f⟩

/-- A reply with the calls made by then. -/
structure Made (α : Type) where
  reply : Reply α
  history : List Call

namespace Behaviour

def make (page : Behaviour) (history : List Call) (call : Call) : Made call.Answer :=
  ⟨page.answer history call, history ++ [call]⟩

/-- Makes a call with a wait alongside. -/
def makeWith (page : Behaviour) (history : List Call) (call wait : Call) : Made wait.Answer :=
  let first := page.answer history call
  match first.result with
  | .error e =>
    if first.delay = 0 then ⟨⟨0, .error e⟩, history ++ [call]⟩
    else ⟨first.alongside (page.answer (history ++ [call]) wait), history ++ [call, wait]⟩
  | .ok _ => ⟨first.alongside (page.answer (history ++ [call]) wait), history ++ [call, wait]⟩

end Behaviour

end Jobflow.Page
