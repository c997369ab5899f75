import Jobflow.Workflow.Execute
import Jobflow.Proofs.Dict

/-!
Looking variables up after a change. Binding a name or removing it leaves every
other name alone, and a name that is removed is not bound any more.
-/

namespace Jobflow

namespace Workflow.Context

@[simp] theorem get?_setFlag_self (ctx : Context) (name : String) (value : Bool) :
    (ctx.setFlag name value).get? name = some (.flag value) :=
  Dict.find?_insert_self ..

@[simp] theorem get?_setText_self (ctx : Context) (name value : String) :
    (ctx.setText name value).get? name = some (.text value) :=
  Dict.find?_insert_self ..

theorem get?_setFlag_of_ne (ctx : Context) {name other : String} (hne : other ≠ name)
    (value : Bool) : (ctx.setFlag name value).get? other = ctx.get? other :=
  Dict.find?_insert_of_ne hne ..

theorem get?_setText_of_ne (ctx : Context) {name other : String} (hne : other ≠ name)
    (value : String) : (ctx.setText name value).get? other = ctx.get? other :=
  Dict.find?_insert_of_ne hne ..

theorem get?_remove_of_ne (ctx : Context) {name other : String} (hne : other ≠ name) :
    (ctx.remove name).get? other = ctx.get? other :=
  Dict.find?_erase_of_ne hne ..

theorem flag?_eq_some_iff {ctx : Context} {name : String} {flag : Bool} :
    ctx.flag? name = some flag ↔ ctx.get? name = some (.flag flag) := by
  unfold Context.flag?
  split
  · next found hfound => simp [hfound]
  · next hother => simpa using hother flag

theorem get?_set (ctx : Context) (name other : String) (value : Binding) :
    (ctx.set name value).get? other = if other = name then some value else ctx.get? other := by
  split
  · next heq =>
    subst heq
    exact Dict.find?_insert_self ..
  · next hne => exact Dict.find?_insert_of_ne hne ..

theorem get?_remove (ctx : Context) (name other : String) :
    (ctx.remove name).get? other = if other = name then none else ctx.get? other := by
  split
  · next heq =>
    subst heq
    exact Dict.find?_erase_self ctx.ordered other
  · next hne => exact ctx.get?_remove_of_ne hne

end Workflow.Context

end Jobflow
