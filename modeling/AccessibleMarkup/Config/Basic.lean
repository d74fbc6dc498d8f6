import AccessibleMarkup.Markup.Filter
import AccessibleMarkup.Report.Severity
import AccessibleMarkup.Toml.Value

/-! Configuration of the linter, and what each part of it is when nothing is said. -/
namespace AccessibleMarkup

structure RuleBlock where
  enabled : Option Bool := none
  /-- The severity of the rule's violations, in place of its own. -/
  severity : Option Severity := none
  /-- The keys that only the rule knows. -/
  options : List (String × Toml.Value) := []

namespace RuleBlock

def option? (block : RuleBlock) (key : String) : Option Toml.Value := block.options.lookup key

def boolean (block : RuleBlock) (key : String) (otherwise : Bool) : Bool :=
  ((block.option? key).bind (·.asBoolean?)).getD otherwise

def integer (block : RuleBlock) (key : String) (otherwise : Int) : Int :=
  ((block.option? key).bind (·.asInteger?)).getD otherwise

def string (block : RuleBlock) (key : String) (otherwise : String) : String :=
  ((block.option? key).bind (·.asString?)).getD otherwise

def strings (block : RuleBlock) (key : String) : List String :=
  ((block.option? key).bind (·.asArray?)).elim [] (·.filterMap (·.asString?))

end RuleBlock

/-- Which files are checked, and how. -/
structure AnalyzerConfig where
  root : String := "."
  /-- Patterns of the files to check. -/
  included : List String
  /-- Patterns of the files to leave out. -/
  excluded : List String
  respectGitignore : Bool := true
  respectAllowComments : Bool := true
  /-- Whether rules may run at the same time. -/
  parallel : Bool := false
  deriving DecidableEq, Repr

namespace AnalyzerConfig

def defaultInclude : List String :=
  ["**/*.html", "**/*.htm", "**/*.xhtml", "**/*.jsp", "**/*.jspf", "**/*.tag", "**/*.erb",
    "**/*.ejs", "**/*.hbs", "**/*.mustache", "**/*.njk", "**/*.jinja", "**/*.j2", "**/*.twig",
    "**/*.ftl", "**/*.vm"]

def empty : AnalyzerConfig := { included := defaultInclude, excluded := [] }

def standard : AnalyzerConfig :=
  { included := defaultInclude, excluded := ["**/node_modules/**", "**/target/**"] }

end AnalyzerConfig

/-- What is blanked before documents are read. -/
structure FilterConfig where
  enabled : Bool := true
  nameSpaces : List String := Markup.Filter.defaultNameSpaces
  deriving DecidableEq, Repr

def FilterConfig.filter (config : FilterConfig) : Markup.Filter :=
  if config.enabled then .controlFlow config.nameSpaces else .keep

structure Config where
  /-- Name of the set of rules. -/
  preset : Option String := none
  /-- Name of the severity that fails a run. -/
  failOn : Option String := none
  analyzer : AnalyzerConfig := .standard
  filter : FilterConfig := {}
  /-- The blocks of rules, by what they are called. -/
  rules : List (String × RuleBlock) := []

inductive ConfigError where
  | unreadable (path cause : String)
  /-- The text is not TOML, or a key has a value of the wrong kind. -/
  | malformed
  /-- A value of the right kind makes no sense. -/
  | invalid (cause : String)
  deriving DecidableEq, Repr

def ConfigError.message : ConfigError → String
  | unreadable path cause => s!"Failed to read config file {path}: {cause}"
  | malformed => "Failed to parse config"
  | invalid cause => s!"Invalid config value: {cause}"

namespace Config

def block? (config : Config) (rule : String) : Option RuleBlock := config.rules.lookup rule

def isEnabled (config : Config) (rule : String) : Bool :=
  ((config.block? rule).bind (·.enabled)).getD true

def severity? (config : Config) (rule : String) : Option Severity :=
  (config.block? rule).bind (·.severity)

def failOnSeverity (config : Config) : Except ConfigError Severity :=
  match config.failOn with
  | none => .ok .error
  | some name => (Severity.read name).mapError fun unknown => .invalid unknown.message

end Config

end AccessibleMarkup
