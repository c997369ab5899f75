import Jobflow.Cookie.Basic

/-!
Cookies on their way out of a browser and back into one. A browser reports empty
texts and negative times where a stored cookie has nothing, and a cookie without
a domain cannot be put back.
-/

namespace Jobflow.Browser

open Jobflow.Cookie (Cookie Jar)
open Jobflow.Decimal (Binary64)
open Jobflow.Json

/-- To which requests from other sites a cookie belongs. -/
inductive SameSite where
  | strict
  | lax
  | none
  deriving DecidableEq, Repr

namespace SameSite

def name : SameSite → String
  | .strict => "Strict"
  | .lax => "Lax"
  | .none => "None"

def all : List SameSite := [.strict, .lax, .none]

/-- The rule of that name, in any case. -/
def parse? (raw : String) : Option SameSite :=
  all.find? fun rule => Text.sameIgnoringCase rule.name raw

end SameSite

/-- A cookie as a browser reports it. -/
structure LiveCookie where
  name : String
  value : String
  domain : String
  path : String
  expires : Binary64
  httpOnly : Bool
  secure : Bool
  /-- whether the cookie ends with its session -/
  session : Bool
  sameSite : Option SameSite
  deriving DecidableEq, Repr

/-- A cookie as a browser takes it. -/
structure CookieParameter where
  name : String
  value : String
  domain : String
  path : Option String
  secure : Bool
  httpOnly : Bool
  sameSite : Option SameSite
  expires : Option Binary64
  deriving DecidableEq, Repr

/-- The text, unless it is empty. -/
def unlessEmpty (s : String) : Option String := if s = "" then none else some s

def LiveCookie.stored (c : LiveCookie) : Cookie where
  name := c.name
  value := c.value
  domain := unlessEmpty c.domain
  path := unlessEmpty c.path
  expires := if !c.session && Binary64.zero.le c.expires then some c.expires else none
  httpOnly := c.httpOnly
  secure := c.secure
  sameSite := c.sameSite.map SameSite.name

def exported (cookies : List LiveCookie) : Jar := ⟨cookies.map LiveCookie.stored⟩

/-- What puts a stored cookie back; nothing for one without a domain. -/
def restored? (c : Cookie) : Option CookieParameter :=
  c.domain.map fun domain => {
    name := c.name
    value := c.value
    domain := domain
    path := c.path
    secure := c.secure
    httpOnly := c.httpOnly
    sameSite := c.sameSite.bind SameSite.parse?
    expires := c.expires }

/-- What puts the cookies of a jar back, in their order. -/
def restored (jar : Jar) : List CookieParameter := jar.cookies.filterMap restored?

/-! ### JSON -/

/-- A cookie parameter, without the members that have no value. -/
def CookieParameter.toValue (p : CookieParameter) : Value :=
  let optional (name : String) (value : Option Value) : List (String × Value) :=
    (value.map fun value => (name, value)).toList
  .object ([("name", .string p.name), ("value", .string p.value), ("domain", .string p.domain)] ++
    optional "path" (p.path.map .string) ++
    [("secure", .bool p.secure), ("httpOnly", .bool p.httpOnly)] ++
    optional "sameSite" (p.sameSite.map fun rule => .string rule.name) ++
    optional "expires" (p.expires.map fun x => .number (.real x)))

/-- A rule by its name, possibly in lower case; the report on another word is the
word itself. -/
def SameSite.read : Reader SameSite :=
  readText "a string" fun raw =>
    match all.find? fun rule => raw = rule.name || raw = Text.lower rule.name with
    | .some rule => .ok rule
    | .none => .error (.rejected raw)

/-- The members of a reported cookie read so far. -/
structure LiveCookie.Draft where
  name : Option String := none
  value : Option String := none
  domain : Option String := none
  path : Option String := none
  expires : Option Binary64 := none
  httpOnly : Option Bool := none
  secure : Option Bool := none
  session : Option Bool := none
  sameSite : Option SameSite := none

def LiveCookie.read : Reader LiveCookie :=
  Record.read
    { expected := "struct Cookie"
      fields :=
        [field "name" false Draft.name (fun d a => { d with name := some a }) readString,
         field "value" false Draft.value (fun d a => { d with value := some a }) readString,
         field "domain" false Draft.domain (fun d a => { d with domain := some a }) readString,
         field "path" false Draft.path (fun d a => { d with path := some a }) readString,
         field "expires" false Draft.expires (fun d a => { d with expires := some a }) readReal,
         field "httpOnly" false Draft.httpOnly (fun d a => { d with httpOnly := some a }) readBool,
         field "secure" false Draft.secure (fun d a => { d with secure := some a }) readBool,
         field "session" false Draft.session (fun d a => { d with session := some a }) readBool,
         field "sameSite" true Draft.sameSite (fun d a => { d with sameSite := some a })
           SameSite.read] }
    ({} : Draft)
    fun d => do
      return {
        name := ← required "name" d.name
        value := ← required "value" d.value
        domain := ← required "domain" d.domain
        path := ← required "path" d.path
        expires := ← required "expires" d.expires
        httpOnly := ← required "httpOnly" d.httpOnly
        secure := ← required "secure" d.secure
        session := ← required "session" d.session
        sameSite := d.sameSite }

end Jobflow.Browser
