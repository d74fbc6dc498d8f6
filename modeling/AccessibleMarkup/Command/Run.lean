import AccessibleMarkup.Command.Output
import AccessibleMarkup.Command.Settings

/-! Running the program. -/
namespace AccessibleMarkup

variable {m : Type → Type} [Monad m]

/-- What a run leaves behind besides files. -/
structure RunResult where
  status : Nat := 0
  output : String := ""
  failure : Option Failure := none
  deriving DecidableEq, Repr

namespace RunResult

def failed (failure : Failure) : RunResult := { status := 1, failure := some failure }

/-- A run that has something to show; its status says whether it failed. -/
def shown (output : String) (fails : Bool) : RunResult := { status := if fails then 1 else 0, output }

def ofExcept : Except Failure RunResult → RunResult
  | .ok result => result
  | .error failure => failed failure

end RunResult

abbrev Run (m : Type → Type) (α : Type) : Type := ExceptT Failure m α

namespace Run

def readDocument (files : FileAccess m) (path : String) : Run m (List Char) := do
  match ← files.read path with
  | .ok text => return text
  | .error cause => throw { message := s!"Failed to read {path}", causes := [cause.message] }

def writeFile (files : FileAccess m) (path : String) (text : List Char) : Run m Unit := do
  match ← files.write path text with
  | .ok () => return ()
  | .error cause => throw { message := s!"Failed to write {path}", causes := [cause.message] }

def checkDocument (files : FileAccess m) (linter : Linter) (path : String) : Run m Report := do
  return (linter.lint (← readDocument files path)).inFile path

def check (files : FileAccess m) (settings : RunSettings) (format : OutputFormat) :
    Run m RunResult := do
  let linter ← settings.linter
  let paths ← ExceptT.mk (settings.documents files)
  let reports ← paths.mapM (checkDocument files linter)
  return .shown (Output.reportText (reports.foldl Report.append {}) format)
    (reports.any linter.fails)

/-- Mends a document; it is written if it changed, unless nothing is to be written. -/
def fixDocument (files : FileAccess m) (linter : Linter) (dryRun : Bool) (maxPasses : Nat)
    (path : String) : Run m (String × FixReport) := do
  let report := linter.fix (← readDocument files path) maxPasses
  if report.changed && !dryRun then writeFile files path report.text
  return (path, report)

def fixLine (verb : String) (path : String) (report : FixReport) : String :=
  s!"{verb} {path}: {report.applied} fix(es), {report.remaining} violation(s) remaining\n"

def fixText (verb : String) (outcomes : List (String × FixReport)) : String :=
  let changed := outcomes.filter fun outcome => outcome.2.changed
  let applied := changed.foldl (fun total outcome => total + outcome.2.applied) 0
  String.join (changed.map fun (path, report) => fixLine verb path report) ++
    s!"{verb} {applied} issue(s) in {changed.length} of {outcomes.length} file(s)\n"

def fix (files : FileAccess m) (settings : RunSettings) (dryRun : Bool) (maxPasses : Nat) :
    Run m RunResult := do
  let linter ← settings.linter
  let paths ← ExceptT.mk (settings.documents files)
  let outcomes ← paths.mapM (fixDocument files linter dryRun maxPasses)
  return .shown (fixText (if dryRun then "Would fix" else "Fixed") outcomes)
    (outcomes.any fun outcome => linter.fails (linter.lint outcome.2.text))

def starterConfig : String :=
  "# aria-lint configuration

# recommended | strict | minimal
preset = \"recommended\"

# Exit with status 1 when a violation at or above this severity is found
fail_on = \"error\"

[analyzer]
# Directory checked when no path is given
# root = \"./src/main/webapp\"

# Template files to check
# include = [\"**/*.html\", \"**/*.jsp\", \"**/*.erb\", \"**/*.hbs\", \"**/*.njk\"]

# Glob patterns to exclude from analysis
exclude = [
    \"**/node_modules/**\",
    \"**/target/**\",
    \"**/vendor/**\",
]

# Respect .gitignore files
respect_gitignore = true

# Honor <!-- aria-lint: allow(rule) reason=\"...\" --> comments
respect_allow_comments = true

[filter]
# Blank template control-flow tags such as <c:forEach> before scanning
enabled = true
prefixes = [\"c\", \"fn\", \"fmt\", \"jsp\", \"th\", \"ui\", \"tiles\"]

# Rule configurations
# Each rule can be enabled/disabled and have its severity overridden

[rules.required-parent]
# Fragments rendered into a list elsewhere start with a bare <li>
ignore_top_level = false

# [rules.list-nesting-depth]
# max_depth = 3

# [rules.list-item-count]
# max_items = 50

# [rules.list-semantics]
# severity = \"warning\"
# threshold_percent = 60
"

/-- Writes the configuration to start from. One that is there is kept unless `force` is given. -/
def init (files : FileAccess m) (force : Bool) : Run m RunResult := do
  let path := "./aria-lint.toml"
  if (← files.isThere path) && !force then
    throw { message := s!"Configuration file already exists at {path}. Use --force to overwrite." }
  writeFile files path starterConfig.toList
  return .shown (s!"Created {path}\n" ++
    "\nNext steps:\n  1. Edit aria-lint.toml to configure rules\n  2. Run: aria-lint check\n") false

def command (files : FileAccess m) (environment : Environment) (invocation : Invocation) :
    Run m RunResult :=
  match invocation.command with
  | .check arguments format => do
    let settings ← ExceptT.mk (RunSettings.load files environment arguments invocation.config)
    check files settings format
  | .fix arguments dryRun maxPasses => do
    let settings ← ExceptT.mk (RunSettings.load files environment arguments invocation.config)
    fix files settings dryRun maxPasses
  | .listRules => return .shown Output.ruleList false
  | .init force => init files force

end Run

def runProgram (files : FileAccess m) (environment : Environment) (arguments : List String) :
    m RunResult := do
  match Arguments.read environment.config arguments with
  | .error .usage => return { status := 2 }
  | .error .version => return { output := Output.version }
  | .error .help => return { output := Output.usage }
  | .ok invocation => return .ofExcept (← (Run.command files environment invocation).run)

end AccessibleMarkup
