import AccessibleMarkup.Report.Violation

/-! Reports: the violations of one or more documents. -/
namespace AccessibleMarkup

structure Report where
  violations : List Violation := []
  filesChecked : Nat := 0
  /-- Names of the rules that failed to give an answer. -/
  faultedRules : List String := []
  deriving DecidableEq, Repr

namespace Report

def count (report : Report) (severity : Severity) : Nat :=
  report.violations.countP (·.severity == severity)

def reaches (report : Report) (severity : Severity) : Bool :=
  report.violations.any (·.severity.reaches severity)

def isClean (report : Report) : Bool := report.violations.isEmpty

def ofSeverity (report : Report) (severity : Severity) : List Violation :=
  report.violations.filter (·.severity == severity)

def ofRule (report : Report) (rule : String) : List Violation :=
  report.violations.filter fun violation => violation.rule == rule || violation.code == rule

def inFile (report : Report) (file : String) : Report :=
  { report with violations := report.violations.map (·.inFile file) }

/-- Both reports in one; a rule that faulted is named once. -/
def append (report other : Report) : Report :=
  { violations := report.violations ++ other.violations
    filesChecked := report.filesChecked + other.filesChecked
    faultedRules := other.faultedRules.foldl
      (fun names name => if names.contains name then names else names ++ [name])
      report.faultedRules }

def totals (report : Report) : String :=
  let errors := report.count .error
  let warnings := report.count .warning
  let infos := report.count .info
  s!"{errors} error(s), {warnings} warning(s), {infos} info(s) in {report.filesChecked} file(s)"

/-- The text for a test that fails on violations that reach a severity. -/
def testText (report : Report) (failOn : Severity) : String :=
  let failing := report.violations.filter (·.severity.reaches failOn)
  let number := failing.length
  s!"\n=== aria-lint: {number} violation(s) ===\n\n" ++
    String.join (failing.map fun violation => violation.paragraph ++ "\n") ++
    s!"Total: {report.totals}\n"

end Report

end AccessibleMarkup
