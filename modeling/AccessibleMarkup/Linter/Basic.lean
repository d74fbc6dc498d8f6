import AccessibleMarkup.Linter.Session
import AccessibleMarkup.Rules.Catalogue

/-! Linters: an analyzer with the rules that a configuration asks for, and the severity that fails a
run. -/
namespace AccessibleMarkup

inductive LoadError where
  | config (cause : ConfigError)
  | unknownPreset (name : String)
  | unknownRule (name : String)
  | unknownSeverity (name : String)
  | duplicateRule (cause : DuplicateRule)
  deriving DecidableEq, Repr

def LoadError.message : LoadError → String
  | config cause => cause.message
  | unknownPreset name => s!"Unknown preset `{name}`. Valid presets: recommended, strict, minimal"
  | unknownRule name =>
    s!"Unknown rule `{name}`. Run `aria-lint list-rules` for the available rules"
  | unknownSeverity name => s!"Unknown severity `{name}`. Valid values: error, warning, info"
  | duplicateRule cause => cause.message

/-- What a linter is made from. What is said here counts before the configuration. -/
structure LinterRequest where
  config : Config := {}
  preset : Option String := none
  failOn : Option String := none
  /-- Names or codes of the only rules to use, if there are any. -/
  only : List String := []

structure Linter where
  analyzer : Analyzer
  /-- The severity that fails a run. -/
  failOn : Severity

namespace LinterRequest

def preset? (request : LinterRequest) : Except LoadError Preset :=
  let name := (request.preset <|> request.config.preset).getD "recommended"
  (Preset.read name).mapError fun _ => .unknownPreset name

def failOn? (request : LinterRequest) : Except LoadError Severity :=
  let name := (request.failOn <|> request.config.failOn).getD "error"
  (Severity.read name).mapError fun _ => .unknownSeverity name

def checkNames (names : List String) : Except LoadError Unit :=
  match names.find? fun name => !Rules.isKnown name with
  | some name => .error (.unknownRule name)
  | none => .ok ()

/-- The rules of the preset, or only those that are named. -/
def rules (request : LinterRequest) (preset : Preset) : List Rule :=
  if request.only.isEmpty then preset.rules
  else Rules.all.filter fun rule => request.only.any fun name => rule.isCalled name

def build (request : LinterRequest) : Except LoadError Linter := do
  let preset ← request.preset?
  let failOn ← request.failOn?
  checkNames (request.config.rules.map (·.1))
  checkNames request.only
  let registry ← (Registry.ofRules (request.rules preset)).mapError .duplicateRule
  return { analyzer := Analyzer.ofRegistry registry request.config, failOn }

end LinterRequest

namespace Linter

def ofConfig (config : Config) : Except LoadError Linter := LinterRequest.build { config }

def standard : Linter :=
  { analyzer := Analyzer.ofRegistry ⟨Preset.recommended.rules⟩ {}, failOn := .error }

def lint (linter : Linter) (text : List Char) : Report := linter.analyzer.analyze text

def fix (linter : Linter) (text : List Char) (maxPasses : Nat) : FixReport :=
  (Session.fixAll linter.analyzer { text } maxPasses).1

def fails (linter : Linter) (report : Report) : Bool := report.reaches linter.failOn

/-- The text with which a test on a document fails, if it does. -/
def failure? (linter : Linter) (text : List Char) : Option String :=
  let report := linter.lint text
  if linter.fails report then some (report.testText linter.failOn) else none

end Linter

end AccessibleMarkup
