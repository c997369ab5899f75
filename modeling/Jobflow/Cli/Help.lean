import Jobflow.Cli.Arguments

/-!
The help of the commands: what they do, how they are called, and tables of their
commands, operands and options.
-/

namespace Jobflow.Cli

/-- The name under which versions are reported. -/
def packageName : String := "autoapply-cli"

def versionNumber : String := "1.0.0"

/-- What a help page says of a command. -/
structure Page where
  about : String
  usage : String
  commands : List (String × String)
  operands : List (String × String)
  options : List (String × String)

/-- A table with its entries on lines of their own, the explanations below each
other. -/
def table (title : String) (rows : List (String × String)) : List String :=
  let width := rows.foldl (fun width row => max width row.1.toList.length) 0
  if rows.isEmpty then []
  else ["", title ++ ":"] ++ rows.map fun (name, text) =>
    String.ofList (Text.dropEndWhile (· == ' ')
      ("  " ++ Text.padRight width name ++ "  " ++ text).toList)

def Page.text (page : Page) (command : List String) : String :=
  let name := String.intercalate " " ("autoapply" :: command)
  String.intercalate "\n"
    ([page.about, "", "Usage: " ++ name ++ page.usage] ++ table "Commands" page.commands ++
      table "Arguments" page.operands ++ table "Options" page.options) ++ "\n"

/-- The options of a command, and those that every command has. -/
def withCommon (options : List (String × String)) : List (String × String) :=
  options ++ [("-h, --help", "Print help"), ("-V, --version", "Print version")]

/-- The row of the command that prints help pages. -/
def helpRow : String × String :=
  ("help", "Print this message or the help of the given subcommand(s)")

/-- What each command does, by its name. -/
def summaries : List (String × String) :=
  [("run", "Poll for pending jobs until interrupted"),
   ("poll-once", "Run a single poll cycle and exit"),
   ("validate", "Compile a workflow document and print its tree"),
   ("exec", "Execute one workflow against one URL"),
   ("jobs", "Inspect and edit the job backlog"),
   ("info", "Show version and effective configuration")]

def jobsSummaries : List (String × String) :=
  [("list", "Show the backlog"), ("add", "Add a job offer, armed for one application"),
   ("rearm", "Arm a job for another application attempt")]

def summary (rows : List (String × String)) (name : String) : String :=
  ((rows.find? fun row => row.1 = name).map Prod.snd).getD ""

def pageOf : List String → Page
  | [] =>
    ⟨"Declarative job-application browser automation - CLI application", " [OPTIONS] <COMMAND>",
      summaries ++ [helpRow], [],
      withCommon [("-c, --config <FILE>", "Configuration file path"),
        ("-l, --log-level <LOG_LEVEL>", "Log level [default: info]"),
        ("-d, --debug", "Enable debug mode"),
        ("-o, --output <OUTPUT>", "Output format [default: human] [possible values: human, json]")]⟩
  | ["validate"] =>
    ⟨summary summaries "validate", " <FILE>", [], [("<FILE>", "Workflow JSON document")],
      withCommon []⟩
  | ["exec"] =>
    ⟨summary summaries "exec", " [OPTIONS] --url <URL>", [], [],
      withCommon [
        ("-w, --workflow <WORKFLOW>", "Workflow name; resolved from the URL's host when omitted"),
        ("-u, --url <URL>", "Job offer URL"),
        ("-t, --title <TITLE>", "Job title bound as JobTitle [default: ]"),
        ("-e, --employer <EMPLOYER>", "Employer bound as CompanyName")]⟩
  | ["jobs"] =>
    ⟨summary summaries "jobs", " <COMMAND>", jobsSummaries ++ [helpRow], [], withCommon []⟩
  | ["jobs", "list"] =>
    ⟨summary jobsSummaries "list", " [OPTIONS]", [], [],
      withCommon [("    --pending", "Only jobs the next poll may pick up")]⟩
  | ["jobs", "add"] =>
    ⟨summary jobsSummaries "add", " [OPTIONS] --url <URL> --title <TITLE>", [], [],
      withCommon [("    --url <URL>", ""), ("    --title <TITLE>", ""),
        ("    --employer <EMPLOYER>", "")]⟩
  | ["jobs", "rearm"] =>
    ⟨summary jobsSummaries "rearm", " <ID>", [], [("<ID>", "")], withCommon []⟩
  | ["help"] | ["jobs", "help"] =>
    ⟨helpRow.2, " [COMMAND]...", [], [("[COMMAND]...", "Print help for the subcommand(s)")], []⟩
  | command => ⟨summary summaries (command.headD ""), "", [], [], withCommon []⟩

/-- The version, with the command behind which it was asked for. -/
def versionText (command : List String) : String :=
  String.intercalate "-" (packageName :: command) ++ " " ++ versionNumber ++ "\n"

end Jobflow.Cli
