import AccessibleMarkup.Command.Arguments
import AccessibleMarkup.Report.Json
import AccessibleMarkup.Rules.Catalogue

/-! What the program shows. -/
namespace AccessibleMarkup.Output

inductive Colour where
  | red
  | green
  | yellow
  | blue
  deriving DecidableEq, Repr

def Colour.code : Colour → Nat
  | red => 31
  | green => 32
  | yellow => 33
  | blue => 34

def coloured (colour : Colour) (text : String) : String :=
  s!"\x1b[{colour.code}m{text}\x1b[0m"

def severityColour : Severity → Colour
  | .error => .red
  | .warning => .yellow
  | .info => .blue

def labelLine (label : Label) : String :=
  s!"  - {label.location.line}:{label.location.column}: {label.message}\n"

/-- A violation in several lines, with an empty line after it. -/
def violationText (violation : Violation) : String :=
  let severity := coloured (severityColour violation.severity) violation.severity.name
  violation.headLine ++ s!"  {severity}: {violation.message}\n" ++
    String.join (violation.labels.map labelLine) ++
    String.join (violation.suggestions.map Violation.helpLine) ++ "\n"

def totalColour (report : Report) : Colour :=
  if 0 < report.count .error then .red
  else if 0 < report.count .warning then .yellow
  else .green

/-- The numbers of violations, and the rules that failed. -/
def summary (report : Report) : String :=
  coloured (totalColour report) s!"Found {report.totals}" ++ "\n" ++
    if report.faultedRules.isEmpty then ""
    else
      let names := String.intercalate ", " report.faultedRules
      coloured .yellow s!"Rules that faulted and were skipped: {names}" ++ "\n"

def reportText (report : Report) : OutputFormat → String
  | .text | .pretty => String.join (report.violations.map violationText) ++ summary report
  | .json => report.toJson.pretty ++ "\n"
  | .compact => String.join (report.violations.map fun violation => violation.oneLine ++ "\n")

def padded (width : Nat) (text : String) : String :=
  text ++ String.ofList (List.replicate (width - text.length) ' ')

def ruleLine (code name severity description : String) : String :=
  padded 8 code ++ " " ++ padded 22 name ++ " " ++ padded 9 severity ++ " " ++ description ++ "\n"

def presetLine (preset : Preset) : String :=
  let codes := String.intercalate ", " (preset.rules.map fun rule => rule.code)
  let note := if preset = .recommended then " (default)" else ""
  "  " ++ padded 12 preset.name ++ s!" - {codes}{note}\n"

def ruleList : String :=
  "Available rules:\n\n" ++ ruleLine "Code" "Name" "Severity" "Description" ++
    String.ofList (List.replicate 90 '-') ++ "\n" ++
    String.join (Rules.all.map fun rule =>
      ruleLine rule.code rule.name rule.severity.name rule.description) ++
    "\nPresets:\n" ++
    String.join ([Preset.recommended, .strict, .minimal].map presetLine) ++
    "\nUse --rules to filter specific rules, e.g.:\n" ++
    "  aria-lint check --rules tablist-selection,aria-reference\n" ++
    "  aria-lint check --rules AR001,AR003,AR004\n"

def version : String := "aria-lint 0.3.0\n"

def usage : String :=
  "Usage: aria-lint [OPTIONS] <COMMAND>\n\n" ++
    "Commands:\n" ++
    "  check [PATH]  Report accessibility violations in templates\n" ++
    "  fix [PATH]    Apply the available fixes to templates in place\n" ++
    "  list-rules    Print the rules and presets\n" ++
    "  init          Write a starter aria-lint.toml in the current directory\n"

end AccessibleMarkup.Output
