import Jobflow.Json.Read
import Jobflow.Json.Print

/-!
Cookies as they are kept between runs, their JSON form, and the merge of two
cookie jars.
-/

namespace Jobflow.Cookie

open Jobflow.Decimal (Binary64)
open Jobflow.Json

/-- A browser cookie. One without an expiry lives as long as its session. -/
structure Cookie where
  name : String
  value : String
  domain : Option String
  path : Option String
  /-- seconds since 1970 -/
  expires : Option Binary64
  httpOnly : Bool
  secure : Bool
  sameSite : Option String
  deriving DecidableEq, Repr

/-- The cookies of a browser session, or of a file. -/
structure Jar where
  cookies : List Cookie
  deriving DecidableEq, Repr

def Jar.empty : Jar := ⟨[]⟩

/-- Whether the cookie has a positive expiry that is past at `now`. -/
def Cookie.isExpired (c : Cookie) (now : Binary64) : Bool :=
  match c.expires with
  | some at_ => Binary64.lt Binary64.zero at_ && at_.le now
  | none => false

/-- The cookies that are not past at `now`. -/
def Jar.fresh (jar : Jar) (now : Binary64) : Jar :=
  ⟨jar.cookies.filter fun c => !c.isExpired now⟩

/-- What makes two cookies the same cookie of a browser. -/
def Cookie.key (c : Cookie) : String × Option String × Option String :=
  (c.name, c.domain, c.path)

/-- The stored cookies with newer ones put over them: a newer cookie replaces
the stored ones with its key, and cookies that are past are dropped. -/
def merge (stored newer : Jar) (now : Binary64) : Jar :=
  let kept := stored.cookies.filter fun old => !newer.cookies.any fun new => new.key == old.key
  Jar.fresh ⟨kept ++ newer.cookies⟩ now

/-! ### JSON -/

/-- A double, or null. -/
def realValue? : Option Binary64 → Value
  | some x => .number (.real x)
  | none => .null

/-- The cookie with its members in the order of a cookie file. -/
def Cookie.toValue (c : Cookie) : Value :=
  .object [("name", .string c.name), ("value", .string c.value), ("domain", .ofText? c.domain),
    ("path", .ofText? c.path), ("expires", realValue? c.expires), ("httpOnly", .bool c.httpOnly),
    ("secure", .bool c.secure), ("sameSite", .ofText? c.sameSite)]

def Jar.toValue (jar : Jar) : Value :=
  .object [("cookies", .array (jar.cookies.map Cookie.toValue))]

/-- The members of a cookie read so far. -/
structure Cookie.Draft where
  name : Option String := none
  value : Option String := none
  domain : Option (Option String) := none
  path : Option (Option String) := none
  expires : Option (Option Binary64) := none
  httpOnly : Option Bool := none
  secure : Option Bool := none
  sameSite : Option (Option String) := none

def Cookie.read : Reader Cookie :=
  Record.read
    { expected := "struct StoredCookie"
      fields :=
        [field "name" false Draft.name (fun d a => { d with name := some a }) readString,
         field "value" false Draft.value (fun d a => { d with value := some a }) readString,
         field "domain" true Draft.domain (fun d a => { d with domain := some a })
           (readOption readString),
         field "path" true Draft.path (fun d a => { d with path := some a })
           (readOption readString),
         field "expires" true Draft.expires (fun d a => { d with expires := some a })
           (readOption readReal),
         field "httpOnly" true Draft.httpOnly (fun d a => { d with httpOnly := some a }) readBool,
         field "secure" true Draft.secure (fun d a => { d with secure := some a }) readBool,
         field "sameSite" true Draft.sameSite (fun d a => { d with sameSite := some a })
           (readOption readString)] }
    ({} : Draft)
    fun d => do
      return {
        name := ← required "name" d.name
        value := ← required "value" d.value
        domain := d.domain.join
        path := d.path.join
        expires := d.expires.join
        httpOnly := d.httpOnly.getD false
        secure := d.secure.getD false
        sameSite := d.sameSite.join }

def Jar.read : Reader Jar :=
  Record.read
    { expected := "struct CookieState"
      fields := [field "cookies" true id (fun _ a => some a) (readList Cookie.read)] }
    none
    fun d => .ok ⟨d.getD []⟩

/-- The cookies that a text writes. -/
def parseJar (text : String) : Except Json.Error Jar := parseAs Jar.read text

end Jobflow.Cookie
