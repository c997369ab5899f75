import Jobflow.Files.Tree
import Jobflow.Json.Lenient
import Jobflow.Rehearsal.Script
import Jobflow.Workflow.Context

/-!
Rehearsals described in JSON: pages, faults, variables and files, and the calls
on a page as lists of their name and arguments. The test bench reads and writes
rehearsals in this form; the program itself never does.
-/

namespace Jobflow.Rehearsal

open Jobflow.Json (Value)
open Jobflow.Page
open Jobflow.Workflow (Binding Context)

/-- The page of a description. Later parts of it replace earlier ones: counts of
elements, hidden elements, disabled elements. -/
def Script.ofValue (page : Value) : Script :=
  let counted := (page.membersAt "elements").map fun (selector, count) =>
    (selector, Element.mk (count.asNat?.getD 0) true true)
  let hidden := (page.textsAt "hidden").map fun selector => (selector, Element.mk 1 false true)
  let disabled := (page.textsAt "disabled").map fun selector => (selector, Element.mk 1 true false)
  { elements := Dict.ofList (counted ++ hidden ++ disabled)
    failingSelectors := page.textsAt "fail"
    failingUrls := page.textsAt "fail_urls"
    screenshotsFail := page.flagAt "fail_screenshots" }

def pageError (kind detail : String) : PageError :=
  match kind with
  | "Navigation" => .navigation detail
  | "Timeout" => .timeout detail
  | "SelectorNotFound" => .selectorNotFound detail
  | "Interaction" => .interaction detail
  | "Session" => .session detail
  | "Io" => .io detail
  | _ => .protocol detail

def Fault.ofValue (v : Value) : Fault where
  name := v.textAt "method"
  target := v.textAt? "selector"
  delay := (v.natAt? "delay_ms").getD 0
  error := (v.textAt? "kind").map fun kind => pageError kind (v.textAt "message")

/-- The texts that a call is about. -/
def callArguments : Call → List String
  | .navigate url until_ => [url, until_.name]
  | .waitForLoadIdle => []
  | .fill selector value | .selectOption selector value | .setInputFiles selector value =>
    [selector, value]
  | .click selector _ | .count selector | .waitForSelector selector | .isVisible selector
  | .isEnabled selector | .check selector | .uncheck selector => [selector]
  | .screenshot path => [path]

def callValue (call : Call) : Value :=
  .array ((callName call :: callArguments call).map Value.string)

def callsValue (calls : List Call) : Value := .array (calls.map callValue)

def callNamed? (name selector value : String) : Option Call :=
  match name with
  | "navigate" => some (.navigate selector (Readiness.ofName value))
  | "click" => some (.click selector none)
  | "wait_for_load_idle" => some .waitForLoadIdle
  | "count" => some (.count selector)
  | "wait_for_selector" => some (.waitForSelector selector)
  | "is_visible" => some (.isVisible selector)
  | "is_enabled" => some (.isEnabled selector)
  | "fill" => some (.fill selector value)
  | "select_option" => some (.selectOption selector value)
  | "check" => some (.check selector)
  | "uncheck" => some (.uncheck selector)
  | "set_input_files" => some (.setInputFiles selector value)
  | "screenshot" => some (.screenshot value)
  | _ => none

def answerValue : (call : Call) → call.Answer → Value
  | .count _, (n : Nat) => .ofNat n
  | .waitForSelector _, (b : Bool) => .bool b
  | .isVisible _, (b : Bool) => .bool b
  | .isEnabled _, (b : Bool) => .bool b
  | _, _ => .null

/-- The variables that are bound to texts and flags in an object. -/
def contextOfValue (v : Value) : Context :=
  .ofBindings (v.members.filterMap fun (name, value) =>
    match value with
    | .string s => some (name, Binding.text s)
    | .bool b => some (name, Binding.flag b)
    | _ => none)

/-- The variables as pairs of name and value, in the order of their names. -/
def contextEntries (ctx : Context) : Value :=
  .array (ctx.entries.map fun (name, value) => .array [.string name, value.toValue])

/-! ### Files -/

/-- The bytes that pairs of hexadecimal digits write. -/
def hexBytes : List Char → List UInt8
  | a :: b :: rest =>
    UInt8.ofNat (16 * (Text.hexValue? a).getD 0 + (Text.hexValue? b).getD 0) :: hexBytes rest
  | _ => []

/-- A tree with one more file: a text, bytes, a text that can be executed, or a
directory. -/
def plantValue (tree : Files.Tree) (path : String) (body : Value) : Files.Tree :=
  match body.asText?, body.textAt? "hex", body.textAt? "exe" with
  | some text, _, _ => tree.plant path text.toUTF8 false
  | none, some hex, _ => tree.plant path (ByteArray.mk (hexBytes hex.toList).toArray) false
  | none, none, some text => tree.plant path text.toUTF8 true
  | none, none, none => tree.plantDirectory path

def treeOfValue (files : Value) : Files.Tree :=
  files.members.foldl (fun tree (path, body) => plantValue tree path body) []

end Jobflow.Rehearsal
