import AccessibleMarkup.Command.Arguments
import AccessibleMarkup.Files.Discovery
import AccessibleMarkup.Linter.Discovery

/-! The settings of a run: the configuration that counts, and what the arguments change in it. -/
namespace AccessibleMarkup

variable {m : Type → Type} [Monad m]

structure Environment where
  /-- The configuration file to use. -/
  config : Option String := none
  /-- The directory of the user's own configuration. -/
  globalDirectory : Option String := none

inductive ConfigOrigin where
  /-- A file that was named. -/
  | named (path : String)
  /-- A file in or above the directory of the documents. -/
  | project (path : String)
  /-- The user's own file. -/
  | global (path : String)
  /-- Nowhere. -/
  | builtIn
  deriving DecidableEq, Repr

namespace ConfigOrigin

def path? : ConfigOrigin → Option String
  | named path | project path | global path => some path
  | builtIn => none

/-- The directory from which paths in the file are read. -/
def base? : ConfigOrigin → Option String
  | named path | project path => Path.parent? path
  | global _ | builtIn => none

/-- The first configuration file in some directories. A directory with a repository is the last. -/
def search (files : FileAccess m) : List String → m (Option String)
  | [] => return none
  | directory :: above => do
    match ← Config.find? files directory with
    | some path => return some path
    | none =>
      if ← files.isThere (Path.join directory ".git") then return none
      else search files above

/-- Where the configuration for documents in a directory comes from. -/
def locate (files : FileAccess m) (environment : Environment) (start : String)
    (named : Option String) : m ConfigOrigin := do
  match named with
  | some path => return .named path
  | none =>
    let start := (← files.absolute? start).getD start
    match ← search files (Path.ancestors start) with
    | some path => return .project path
    | none =>
      match environment.globalDirectory.map fun directory => Path.join directory "config.toml" with
      | none => return .builtIn
      | some path => return if ← files.isFile path then .global path else .builtIn

end ConfigOrigin

structure RunSettings where
  /-- The file or directory to look at. -/
  target : String
  request : LinterRequest

namespace RunSettings

/-- The directory in which the search for the configuration starts. -/
def searchStart (files : FileAccess m) (arguments : LintArguments) : m String := do
  match arguments.path with
  | none => return "."
  | some path =>
    let start := if ← files.isFile path then (Path.parent? path).getD "." else path
    return if start = "" then "." else start

def loadConfig (files : FileAccess m) (origin : ConfigOrigin) : m (Except Failure Config) := do
  match origin.path? with
  | none => return .ok {}
  | some path =>
    let failed (causes : List String) : Failure :=
      { message := s!"Failed to load config: {path}", causes }
    match ← Config.load files path with
    | .ok config => return .ok config
    | .error (.unreadable path cause) =>
      return .error (failed [(ConfigError.unreadable path cause).message, cause])
    | .error cause => return .error (failed [cause.message])

/-- What the arguments leave of the configuration of files. -/
def adjust (arguments : LintArguments) (origin : ConfigOrigin) (config : AnalyzerConfig) :
    AnalyzerConfig :=
  { config with
    root := match origin.base? with
      | some base => Path.join base config.root
      | none => config.root
    included := if arguments.included.isEmpty then config.included else arguments.included
    excluded := config.excluded ++ arguments.excluded }

/-- The names of the rules to use, without blanks at their ends and without empty ones. -/
def ruleNames (arguments : LintArguments) : List String :=
  (arguments.rules.map Text.trim).filter (· != "")

/-- The settings that the arguments and the configuration make. -/
def load (files : FileAccess m) (environment : Environment) (arguments : LintArguments)
    (named : Option String) : m (Except Failure RunSettings) := do
  let start ← searchStart files arguments
  let origin ← ConfigOrigin.locate files environment start named
  match ← loadConfig files origin with
  | .error failure => return .error failure
  | .ok config =>
    let config := { config with analyzer := adjust arguments origin config.analyzer }
    return .ok {
      target := arguments.path.getD config.analyzer.root
      request := {
        config
        preset := arguments.preset
        failOn := arguments.failOn
        only := ruleNames arguments } }

def linter (settings : RunSettings) : Except Failure Linter :=
  settings.request.build.mapError fun cause =>
    { message := "Failed to build linter", causes := [cause.message] }

def documents (files : FileAccess m) (settings : RunSettings) :
    m (Except Failure (List String)) :=
  Discovery.documents files settings.target settings.request.config.analyzer

end RunSettings

end AccessibleMarkup
