import Jobflow.Workflow.Context

/-!
Substitution of variables into texts. A token is `$`, an opening brace, one or
more characters other than a closing brace, and a closing brace. Tokens are
found from left to right, each starting as early as possible, and a token whose
name is bound to a non-empty text is replaced by it. Replaced text is not
looked at again.
-/

namespace Jobflow.Workflow

/-- What the scanner has seen of a token that may be starting. -/
inductive TokenState where
  | outside
  /-- a dollar sign -/
  | dollar
  /-- the start of a token and the part of its name read so far, last character
  first -/
  | inside (name : List Char)
  deriving DecidableEq, Repr

def tokenChars (name : List Char) : List Char :=
  ['$', '\x7b'] ++ name ++ ['\x7d']

/-- What stands for a token in the result. -/
def tokenValue (ctx : Context) (name : List Char) : List Char :=
  match ctx.text? (String.ofList name) with
  | some value => if value = "" then tokenChars name else value.toList
  | none => tokenChars name

/-- The result for the rest of a text. What was seen of an unfinished token is
passed on as it is. -/
def substitute (ctx : Context) : TokenState → List Char → List Char
  | .outside, [] => []
  | .dollar, [] => ['$']
  | .inside name, [] => ['$', '\x7b'] ++ name.reverse
  | .outside, c :: rest =>
    if c = '$' then substitute ctx .dollar rest else c :: substitute ctx .outside rest
  | .dollar, c :: rest =>
    if c = '\x7b' then substitute ctx (.inside []) rest
    else if c = '$' then '$' :: substitute ctx .dollar rest
    else '$' :: c :: substitute ctx .outside rest
  | .inside name, c :: rest =>
    if c = '\x7d' then
      if name = [] then tokenChars [] ++ substitute ctx .outside rest
      else tokenValue ctx name.reverse ++ substitute ctx .outside rest
    else substitute ctx (.inside (c :: name)) rest

/-- The text with every token of a bound, non-empty text replaced. -/
def interpolate (ctx : Context) (input : String) : String :=
  String.ofList (substitute ctx .outside input.toList)

end Jobflow.Workflow
