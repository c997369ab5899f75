import Jobflow.Files.Path
import Jobflow.Job.Basic

/-!
The command line: options, then a command, then the options and operands of the
command. Options are written long or short, with their value behind an equals
sign or as the next argument, and none of them twice.
-/

namespace Jobflow.Cli

open Jobflow.Files (Path)

/-- How results are printed. -/
inductive Form where
  | human
  | json
  deriving DecidableEq, Repr

/-- A workflow run that is asked for outright. -/
structure Trial where
  /-- found from the address when it is not given -/
  workflow : Option String
  url : String
  title : String
  employer : Option String
  deriving DecidableEq, Repr

/-- A job offer to be added. -/
structure Offer where
  url : String
  title : String
  employer : Option String
  deriving DecidableEq, Repr

inductive Command where
  /-- polls until it is interrupted -/
  | run
  | pollOnce
  | validate (file : Path)
  | execute (trial : Trial)
  | list (onlyPending : Bool)
  | add (offer : Offer)
  | rearm (id : Uuid)
  | info
  deriving DecidableEq, Repr

/-- A command with the options that stand before it. -/
structure Invocation where
  config : Option Path
  logLevel : String
  debug : Bool
  form : Form
  command : Command
  deriving DecidableEq, Repr

/-- Why arguments are no invocation. -/
inductive Refusal where
  | misuse
  /-- the help of a command was asked for -/
  | help (command : List String)
  /-- the version was asked for, possibly behind a command -/
  | version (command : List String)
  deriving DecidableEq, Repr

/-! ### Matching -/

/-- An option: its names, and which values it takes, if it takes one. -/
structure OptionSpec where
  long : String
  short : Option Char
  accepts : Option (String → Bool)

/-- What may stand at one level of the command line. -/
structure Level where
  command : List String
  options : List OptionSpec
  /-- which operands it takes, in order -/
  operands : List (String → Bool)
  commands : List String

/-- The values of options and the operands found so far; an option without a
value has an empty one. A value in an argument of its own is not looked at before
the next option, or the end of what follows it. -/
structure Matches where
  values : List (String × String)
  operands : List String
  pending : Option (OptionSpec × String)

namespace Matches

def empty : Matches := ⟨[], [], none⟩

def value? (found : Matches) (long : String) : Option String :=
  (found.values.find? fun binding => binding.1 = long).map Prod.snd

def has (found : Matches) (long : String) : Bool := (found.value? long).isSome

/-- Sets an option that was not there before. -/
def put (found : Matches) (option : OptionSpec) (value : String) : Except Refusal Matches :=
  if found.has option.long then .error .misuse
  else if option.accepts.all fun accepts => accepts value then
    .ok { found with values := (option.long, value) :: found.values }
  else .error .misuse

/-- Sets the option whose value was not looked at yet. -/
def settle (found : Matches) : Except Refusal Matches :=
  match found.pending with
  | some (option, value) => { found with pending := none }.put option value
  | none => .ok found

/-- Sets an option, after those before it. -/
def set (found : Matches) (option : OptionSpec) (value : String) : Except Refusal Matches := do
  (← found.settle).put option value

end Matches

def isOptionLike (arg : String) : Bool :=
  match arg.toList with
  | '-' :: _ :: _ => true
  | _ => false

/-- The text around the first equals sign. -/
def splitEquals (cs : List Char) : String × Option String :=
  let name := cs.takeWhile (· != '=')
  match cs.drop name.length with
  | _ :: value => (String.ofList name, some (String.ofList value))
  | [] => (String.ofList name, none)

/-- What an argument made of options leads to: the values found, and an option
that waits for its value. -/
abbrev Opened := Matches × Option OptionSpec

/-- Waits for the value of an option. -/
def awaitValue (found : Matches) (option : OptionSpec) : Except Refusal Opened := do
  return (← found.settle, some option)

/-- What was asked for instead of a command, if the options before it are right. -/
def refuse (found : Matches) (refusal : Refusal) : Except Refusal Opened := do
  let _ ← found.settle
  throw refusal

def matchLong (level : Level) (found : Matches) (cs : List Char) : Except Refusal Opened :=
  let (name, value) := splitEquals cs
  match level.options.find? fun option => option.long = name, value with
  | some option, some value =>
    if option.accepts.isSome then do return (← found.set option value, none)
    else .error .misuse
  | some option, none =>
    if option.accepts.isSome then awaitValue found option
    else do return (← found.set option "", none)
  | none, none =>
    if name = "help" then refuse found (.help level.command)
    else if name = "version" then refuse found (.version level.command)
    else .error .misuse
  | none, some _ => .error .misuse

/-- Options by their short names, of which the last one may have a value. -/
def matchShort (level : Level) (found : Matches) : List Char → Except Refusal Opened
  | [] => .ok (found, none)
  | c :: rest =>
    match level.options.find? fun option => option.short = some c with
    | some option =>
      if option.accepts.isSome then
        match rest with
        | [] => awaitValue found option
        | '=' :: value => do return (← found.set option (String.ofList value), none)
        | value => do return (← found.set option (String.ofList value), none)
      else do matchShort level (← found.set option "") rest
    | none =>
      if c = 'h' then refuse found (.help level.command)
      else if c = 'V' then refuse found (.version level.command)
      else .error .misuse

/-- An operand. -/
def matchOperand (level : Level) (found : Matches) (arg : String) : Except Refusal Matches :=
  match level.operands[found.operands.length]? with
  | some accepts =>
    if accepts arg then .ok { found with operands := found.operands ++ [arg] }
    else .error .misuse
  | none => .error .misuse

/-- Matches the arguments of one level up to the name of a command, which is left
with what follows it. -/
def matchLevel (level : Level) (open_ : Option OptionSpec) (escaped : Bool) (found : Matches) :
    List String → Except Refusal (Matches × List String)
  | [] => if open_.isSome then .error .misuse else .ok (found, [])
  | arg :: rest => do
    match open_ with
    | some option =>
      if isOptionLike arg then .error .misuse
      else matchLevel level none escaped { found with pending := some (option, arg) } rest
    | none =>
      if escaped then matchLevel level none true (← matchOperand level found arg) rest
      else if arg ∈ level.commands then return (found, arg :: rest)
      else match arg.toList with
        | ['-', '-'] => matchLevel level none true found rest
        | '-' :: '-' :: name =>
          let (found, next) ← matchLong level found name
          matchLevel level next false found rest
        | '-' :: c :: more =>
          let (found, next) ← matchShort level found (c :: more)
          matchLevel level next false found rest
        | _ => matchLevel level none false (← matchOperand level found arg) rest

/-! ### The levels -/

def anyText (_ : String) : Bool := true

/-- A path must not be empty. -/
def isPath (s : String) : Bool := s ≠ ""

def isId (s : String) : Bool := (Job.parseId s).toOption.isSome

def valued (long : String) (short : Option Char) (accepts : String → Bool) : OptionSpec :=
  ⟨long, short, some accepts⟩

def topLevel : Level where
  command := []
  options := [valued "config" (some 'c') isPath, valued "log-level" (some 'l') anyText,
    ⟨"debug", some 'd', none⟩, valued "output" (some 'o') fun s => s ∈ ["human", "json"]]
  operands := []
  commands := ["run", "poll-once", "validate", "exec", "jobs", "info", "help"]

/-- A command without options. -/
def bareLevel (command : List String) (operands : List (String → Bool)) : Level :=
  ⟨command, [], operands, []⟩

def jobsLevel : Level := ⟨["jobs"], [], [], ["list", "add", "rearm", "help"]⟩

def listLevel : Level := ⟨["jobs", "list"], [⟨"pending", none, none⟩], [], []⟩

def addLevel : Level where
  command := ["jobs", "add"]
  options := [valued "url" none anyText, valued "title" none anyText,
    valued "employer" none anyText]
  operands := []
  commands := []

def executeLevel : Level where
  command := ["exec"]
  options := [valued "workflow" (some 'w') anyText, valued "url" (some 'u') anyText,
    valued "title" (some 't') anyText, valued "employer" (some 'e') anyText]
  operands := []
  commands := []

/-- Matches all arguments of a command that has no commands of its own. -/
def matchAll (level : Level) (args : List String) : Except Refusal Matches := do
  (← matchLevel level none false .empty args).1.settle

/-- The value of an option that must be there. -/
def Matches.required (found : Matches) (long : String) : Except Refusal String :=
  match found.value? long with
  | some value => .ok value
  | none => .error .misuse

/-- The only operand. -/
def Matches.operand (found : Matches) : Except Refusal String :=
  match found.operands with
  | operand :: _ => .ok operand
  | [] => .error .misuse

/-- Asks for the help of a command, if there is one of that name. -/
def helpOn (known : List (List String)) (above names : List String) : Refusal :=
  if above ++ names ∈ known then .help (above ++ names) else .misuse

/-- The commands that have a help of their own. -/
def documented : List (List String) :=
  [[], ["run"], ["poll-once"], ["validate"], ["exec"], ["jobs"], ["info"], ["help"],
   ["jobs", "list"], ["jobs", "add"], ["jobs", "rearm"], ["jobs", "help"]]

def parseJobs (args : List String) : Except Refusal Command := do
  let (_, rest) ← matchLevel jobsLevel none false .empty args
  match rest with
  | "list" :: args => return .list ((← matchAll listLevel args).has "pending")
  | "add" :: args =>
    let found ← matchAll addLevel args
    return .add ⟨← found.required "url", ← found.required "title", found.value? "employer"⟩
  | "rearm" :: args =>
    let found ← matchAll (bareLevel ["jobs", "rearm"] [isId]) args
    match Job.parseId (← found.operand) with
    | .ok id => return .rearm id
    | .error _ => .error .misuse
  | "help" :: names => .error (helpOn documented ["jobs"] names)
  | _ => .error .misuse

def parseCommand (name : String) (args : List String) : Except Refusal Command := do
  match name with
  | "run" =>
    let _ ← matchAll (bareLevel ["run"] []) args
    return .run
  | "poll-once" =>
    let _ ← matchAll (bareLevel ["poll-once"] []) args
    return .pollOnce
  | "validate" =>
    let found ← matchAll (bareLevel ["validate"] [isPath]) args
    return .validate (← found.operand)
  | "exec" =>
    let found ← matchAll executeLevel args
    let url ← found.required "url"
    return .execute ⟨found.value? "workflow", url, (found.value? "title").getD "",
      found.value? "employer"⟩
  | "jobs" => parseJobs args
  | "info" =>
    let _ ← matchAll (bareLevel ["info"] []) args
    return .info
  | _ => .error (helpOn documented [] args)

/-- The invocation that arguments write. -/
def parseArguments (args : List String) : Except Refusal Invocation := do
  let (found, rest) ← matchLevel topLevel none false .empty args
  match rest with
  | [] => .error .misuse
  | name :: args =>
    let command ← parseCommand name args
    let found ← found.settle
    return {
      config := found.value? "config"
      logLevel := (found.value? "log-level").getD "info"
      debug := found.has "debug"
      form := if found.value? "output" = some "json" then .json else .human
      command := command }

/-! ### Log levels -/

/-- Whether a text names a level of logging, by name or by number. -/
def isLogLevel (s : String) : Bool :=
  (["error", "warn", "info", "debug", "trace"].any fun name => Text.sameIgnoringCase name s) ||
    match Text.readU64? s with
    | some n => 1 ≤ n && n ≤ 5
    | none => false

end Jobflow.Cli
