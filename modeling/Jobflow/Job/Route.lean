import Jobflow.Dict
import Jobflow.Url.Parse

/-!
The table that assigns workflows to the hosts of job offers. A host is compared
without blanks around it, without dots at its end, and in small letters; a host
that is not listed is looked up once more without a leading `www.`.
-/

namespace Jobflow.Job

/-- A host as the table writes it. -/
def normalHost (host : String) : String :=
  String.ofList ((Text.dropEndWhile (· == '.') (Text.trimChars host.toList)).map Text.lowerChar)

/-- Why a route table is rejected. -/
inductive TableFault where
  | emptyHost
  | notBareHost (host : String)
  | noWorkflow (host : String)
  | duplicateHost (host : String)
  deriving DecidableEq, Repr

def TableFault.message : TableFault → String
  | .emptyHost => "empty host"
  | .notBareHost host => "'" ++ host ++ "' is not a bare host name"
  | .noWorkflow host => "host '" ++ host ++ "' has no workflow"
  | .duplicateHost host => "host '" ++ host ++ "' is listed twice"

/-- The fault as the report on a whole table. -/
def TableFault.report (fault : TableFault) : String :=
  "invalid route table: " ++ fault.message

/-- Why an offer has no workflow. -/
inductive RouteError where
  | unmappedDomain (host : String)
  | invalidUrl (url reason : String)
  deriving DecidableEq, Repr

def RouteError.message : RouteError → String
  | .unmappedDomain host => "no workflow mapped for domain '" ++ host ++ "'"
  | .invalidUrl url reason => "invalid job url '" ++ url ++ "': " ++ reason

/-- Workflow names by normal host. -/
structure Routes where
  table : Dict String
  deriving DecidableEq, Repr

namespace Routes

def add (routes : Routes) (host workflow : String) : Except TableFault Routes :=
  let host := normalHost host
  let workflow := Text.trim workflow
  if host = "" then .error .emptyHost
  else if host.toList.any fun c => c == '/' || c == ':' then .error (.notBareHost host)
  else if workflow = "" then .error (.noWorkflow host)
  else if Dict.contains host routes.table then .error (.duplicateHost host)
  else .ok ⟨Dict.insert host workflow routes.table⟩

def addAll (routes : Routes) : List (String × String) → Except TableFault Routes
  | [] => .ok routes
  | (host, workflow) :: rest => do addAll (← routes.add host workflow) rest

/-- The table of a list of entries, or the first thing that is wrong with it. -/
def ofEntries (entries : List (String × String)) : Except TableFault Routes :=
  addAll ⟨[]⟩ entries

/-- The job boards that are known without configuration. -/
def standard : Routes :=
  ⟨Dict.ofList [("www.pracuj.pl", "pracuj"), ("linkedin.com", "linkedin"),
    ("indeed.com", "indeed")]⟩

def forHost? (routes : Routes) (host : String) : Option String :=
  let host := normalHost host
  match Dict.find? host routes.table with
  | some workflow => some workflow
  | none =>
    if "www.".toList.isPrefixOf host.toList then
      Dict.find? (String.ofList (host.toList.drop 4)) routes.table
    else none

def resolve (routes : Routes) (url : String) : Except RouteError String :=
  match Url.parseHost url with
  | .error e => .error (.invalidUrl url e.message)
  | .ok none => .error (.invalidUrl url "no host")
  | .ok (some host) =>
    match routes.forHost? host with
    | some workflow => .ok workflow
    | none => .error (.unmappedDomain (normalHost host))

end Routes

end Jobflow.Job
