import Jobflow.Url.Host

/-!
The host of a URL, found the way browsers find it: blanks around the text and
tabs and line ends inside it do not count, backslashes count as slashes where
the scheme is one of the web's, and everything up to the last `@` before the
path is left out.
-/

namespace Jobflow.Url

/-- How the text after a scheme is read. -/
inductive SchemeKind where
  /-- schemes of the web: slashes before the host may be missing or many -/
  | web
  | file
  | other
  deriving DecidableEq, Repr

def schemeKind (scheme : List Char) : SchemeKind :=
  let name := String.ofList scheme
  if name ∈ ["http", "https", "ws", "wss", "ftp"] then .web
  else if name = "file" then .file
  else .other

/-- The characters that count: no blanks or controls around, no tabs or line
ends inside. -/
def significant (text : String) : List Char :=
  let outer (c : Char) : Bool := c.toNat ≤ 0x20
  (Text.dropEndWhile outer (text.toList.dropWhile outer)).filter fun c =>
    c != '\t' && c != '\n' && c != '\r'

/-- The scheme, in small letters, and the text after its colon. -/
def splitScheme (cs : List Char) : Option (List Char × List Char) :=
  let isLetter (c : Char) : Bool := Text.isAlphanumeric c && !Text.isDigit c
  let isSchemeChar (c : Char) : Bool := Text.isAlphanumeric c || c == '+' || c == '-' || c == '.'
  match cs with
  | first :: _ =>
    if isLetter first then
      let scheme := cs.takeWhile isSchemeChar
      match cs.drop scheme.length with
      | ':' :: rest => some (scheme.map Text.lowerChar, rest)
      | _ => none
    else none
  | [] => none

def endsAuthority (backslash : Bool) (c : Char) : Bool :=
  c == '/' || c == '?' || c == '#' || (backslash && c == '\\')

/-- The text after the last `@` of the authority, and whether a user or a
password stands before it. -/
def dropUserInfo (backslash : Bool) (cs : List Char) : Except UrlError (List Char × Bool) :=
  let authority := cs.takeWhile fun c => !endsAuthority backslash c
  let after := authority.reverse.takeWhile (· != '@')
  if after.length = authority.length then .ok (cs, false)
  else
    let info := authority.take (authority.length - after.length - 1)
    let rest := cs.drop (info.length + 1)
    match info, rest with
    | [], c :: _ =>
      if endsAuthority backslash c then .error .emptyHost else .ok (rest, false)
    | info, rest => .ok (rest, !(info == [] || info == [':']))

/-- The text of the host: up to a colon outside brackets or the end of the
authority. -/
def hostChars (backslash inBrackets : Bool) : List Char → List Char
  | [] => []
  | c :: rest =>
    if (c == ':' && !inBrackets) || endsAuthority backslash c then []
    else
      let inBrackets := if c == '[' then true else if c == ']' then false else inBrackets
      c :: hostChars backslash inBrackets rest

/-- Checks the port: digits up to 65535, then the end of the authority. -/
def checkPort (port : Nat) : List Char → Except UrlError Unit
  | [] => .ok ()
  | c :: rest =>
    if Text.isDigit c then
      let port := 10 * port + Text.digitValue c
      if 65535 < port then .error .invalidPort else checkPort port rest
    else if endsAuthority true c then .ok ()
    else .error .invalidPort

/-- The host after two slashes; `none` for the empty host of a scheme that
allows it. -/
def authorityHost (web : Bool) (cs : List Char) : Except UrlError (Option (List Char)) := do
  let (cs, hasUser) ← dropUserInfo web cs
  let text := hostChars web false cs
  let rest := cs.drop text.length
  if web ∧ text = [] then .error .emptyHost
  let host ← if web then specialHost text else opaqueHost text
  match host, rest with
  | [], ':' :: _ => .error .emptyHost
  | _, ':' :: rest => checkPort 0 rest
  | _, _ => .ok ()
  if host = [] then
    if hasUser then .error .emptyHost else return none
  else return some host

/-- A letter and a colon or bar, the name of a drive. -/
def isDriveLetter : List Char → Bool
  | [letter, mark] =>
    Text.isAlphanumeric letter && !Text.isDigit letter && (mark == ':' || mark == '|')
  | _ => false

/-- The host of a file URL; a drive in its place or after it leaves none. -/
def fileHost (cs : List Char) : Except UrlError (Option (List Char)) :=
  match cs with
  | a :: b :: rest =>
    if (a == '/' || a == '\\') && (b == '/' || b == '\\') then
      let text := rest.takeWhile fun c => !endsAuthority true c
      let path := rest.drop text.length
      let segment := (path.drop 1).takeWhile fun c => !endsAuthority true c
      if text = [] ∨ isDriveLetter text then .ok none
      else do
        let host ← specialHost text
        if host = "localhost".toList then return none
        else match path with
          | '/' :: _ | '\\' :: _ => return if isDriveLetter segment then none else some host
          | _ => return some host
    else .ok none
  | _ => .ok none

/-- The host of a URL, or `none` when it has none. -/
def parseHost (text : String) : Except UrlError (Option String) := do
  let cs := significant text
  match splitScheme cs with
  | none => .error .noBase
  | some (scheme, rest) =>
    let host ← match schemeKind scheme with
      | .web => authorityHost true (rest.dropWhile fun c => c == '/' || c == '\\')
      | .file => fileHost rest
      | .other =>
        match rest with
        | '/' :: '/' :: rest => authorityHost false rest
        | _ => .ok none
    return host.map String.ofList

end Jobflow.Url
