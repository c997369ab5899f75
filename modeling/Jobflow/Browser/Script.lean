import Jobflow.Json.Print

/-!
The JavaScript that is evaluated in a page. Selectors and values are put into
the scripts as string literals. A script that changes the page ends with a
status: `ok`, `missing` when there is no such element, or a short reason.
-/

namespace Jobflow.Browser.Script

open Jobflow.Json (literal)

/-- Lines of a script. -/
def lines (body : List String) : String := String.intercalate "\n" body

/-- A function that is called at once. -/
def called (body : List String) : String :=
  lines (["(() => \x7b"] ++ body ++ ["\x7d)()"])

/-- The first line of a script about one element. -/
def element (selector : String) : String :=
  "  const el = document.querySelector(" ++ literal selector ++ ");"

/-- The event that tells a page of a change. -/
def dispatch (indent event : String) : String :=
  indent ++ "el.dispatchEvent(new Event('" ++ event ++ "', \x7b bubbles: true \x7d));"

def count (selector : String) : String :=
  "document.querySelectorAll(" ++ literal selector ++ ").length"

def isVisible (selector : String) : String :=
  called [
    element selector,
    "  if (!el) return false;",
    "  const style = window.getComputedStyle(el);",
    "  const rect = el.getBoundingClientRect();",
    "  return style.visibility !== 'hidden' && style.display !== 'none' && rect.width > 0 && " ++
      "rect.height > 0;"]

def isEnabled (selector : String) : String :=
  called [
    element selector,
    "  if (!el) return false;",
    "  if (el.disabled) return false;",
    "  const fieldset = el.closest('fieldset[disabled]');",
    "  return !fieldset;"]

/-- Clears the element and sets its value with the setter of the browser, so that
listeners of the page see it. -/
def fill (selector value : String) : String :=
  called [
    element selector,
    "  if (!el) return 'missing';",
    "  el.focus();",
    "  const value = " ++ literal value ++ ";",
    "  if (el instanceof HTMLInputElement || el instanceof HTMLTextAreaElement) \x7b",
    "    const proto = el instanceof HTMLTextAreaElement ? HTMLTextAreaElement.prototype : " ++
      "HTMLInputElement.prototype;",
    "    const descriptor = Object.getOwnPropertyDescriptor(proto, 'value');",
    "    descriptor.set.call(el, '');",
    dispatch "    " "input",
    "    descriptor.set.call(el, value);",
    "  \x7d else if (el.isContentEditable) \x7b",
    "    el.textContent = value;",
    "  \x7d else \x7b",
    "    return 'not-fillable';",
    "  \x7d",
    dispatch "  " "input",
    dispatch "  " "change",
    "  return 'ok';"]

/-- Selects the option with that value, or failing that with that label. -/
def selectOption (selector value : String) : String :=
  called [
    element selector,
    "  if (!el) return 'missing';",
    "  if (!(el instanceof HTMLSelectElement)) return 'not-a-select';",
    "  const wanted = " ++ literal value ++ ";",
    "  const options = Array.from(el.options);",
    "  const option = options.find(o => o.value === wanted) || " ++
      "options.find(o => o.label === wanted);",
    "  if (!option) return 'no-such-option';",
    "  el.value = option.value;",
    "  option.selected = true;",
    dispatch "  " "input",
    dispatch "  " "change",
    "  return 'ok';"]

/-- Clicks a box or a radio button unless it is in the wanted state. -/
def setChecked (selector : String) (checked : Bool) : String :=
  let wanted := toString checked
  called [
    element selector,
    "  if (!el) return 'missing';",
    "  if (el.checked !== " ++ wanted ++ ") el.click();",
    "  return el.checked === " ++ wanted ++ " ? 'ok' : 'state-unchanged';"]

end Jobflow.Browser.Script
