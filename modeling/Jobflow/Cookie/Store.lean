import Jobflow.Cookie.Basic
import Jobflow.Files.Filing
import Jobflow.Url.Parse
import Jobflow.Workflow.Context
import Jobflow.Workflow.Error

/-!
Cookies kept between runs, one file for each site. A file is read, merged and
replaced while the lock of its site is held, so runs on one site lose none of
each other's cookies.
-/

namespace Jobflow.Cookie

open Jobflow.Files
open Jobflow.Decimal (Binary64)
open Jobflow.Workflow (Context FlowError)

/-- The site of runs without a usable address. -/
def defaultSite : String := "default"

/-- The site of a run: the host of the offer's address. -/
def siteOf (ctx : Context) : String :=
  match ctx.text? Workflow.jobUrl with
  | none => defaultSite
  | some url =>
    match Url.parseHost url with
    | .ok (some host) => Text.lower host
    | _ => defaultSite

/-- A directory of cookie files. -/
structure Store where
  directory : Path
  deriving DecidableEq, Repr

namespace Store

/-- A character of a file name; those that could mislead become `_`. -/
def fileChar (c : Char) : Char :=
  if Text.isAlphanumeric c || c == '.' || c == '-' || c == '_' then c else '_'

def pathFor (store : Store) (site : String) : Path :=
  store.directory.join (String.ofList (site.toList.map fileChar) ++ ".json")

/-- The file that is written before it takes the place of the site's file. -/
def temporaryFor (store : Store) (site : String) : Path :=
  (store.pathFor site).withExtension "json.tmp"

/-- The cookies in the file of a site, if it has any that can be read. -/
def read (store : Store) (site : String) : Filing (Except FlowError (Option Jar)) := do
  let path := store.pathFor site
  match ← Filing.readText path with
  | .ok text => return .ok (parseJar text).toOption
  | .error .notFound => return .ok none
  | .error e => return .error (.io (path ++ ": " ++ e.message))

/-- The cookies of a site that are not past. -/
def load (store : Store) (site : String) : Filing (Except FlowError (Option Jar)) :=
  Filing.holding site do
    let now ← Filing.now
    let found ← store.read site
    return found.map fun jar => jar.map fun j => j.fresh (Binary64.ofNat now)

/-- Merges newer cookies into those of a site. -/
def save (store : Store) (site : String) (newer : Jar) : Filing (Except FlowError Unit) :=
  Filing.holding site do
    match ← store.read site with
    | .error e => return .error e
    | .ok stored => do
      let now ← Filing.now
      let merged := merge (stored.getD .empty) newer (Binary64.ofNat now)
      let written ← Filing.replace (some store.directory) (store.temporaryFor site)
        (store.pathFor site) merged.toValue.pretty
      return written.mapError fun e => .io e.message

end Store

end Jobflow.Cookie
