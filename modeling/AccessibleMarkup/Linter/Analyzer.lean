import AccessibleMarkup.Linter.Allowance
import AccessibleMarkup.Linter.Registry
import AccessibleMarkup.Report.Basic
import AccessibleMarkup.Report.Collection

/-! Analyzers: a set of rules under a configuration, and their report on a text. -/
namespace AccessibleMarkup

structure Analyzer where
  registry : Registry
  config : Config
  /-- What is done to a text before its elements are looked for. -/
  filter : Markup.MarkupFilter

namespace Analyzer

def ofRegistry (registry : Registry) (config : Config) : Analyzer :=
  { registry, config, filter := config.filter.filter }

def enabledRules (analyzer : Analyzer) : List Rule :=
  analyzer.registry.rules.filter fun rule => analyzer.config.isEnabled rule.name

/-- What a rule finds, with the severity that the configuration sets. There is no answer if the rule
fails. -/
def run? (analyzer : Analyzer) (doc : Document) (rule : Rule) : Option (List Violation) :=
  (rule.check ((analyzer.config.block? rule.name).getD {}) doc).map fun found =>
    match analyzer.config.severity? rule.name with
    | some severity => found.map fun violation => { violation with severity }
    | none => found

/-- The warning that takes the place of a violation which is permitted without a reason. -/
def missingReason (rule : Rule) (violation : Violation) : Violation :=
  { code := rule.code
    rule := rule.name
    severity := .warning
    location := violation.location
    message := s!"Allow directive for '{rule.name}' is missing required reason"
    suggestions := [⟨"Add reason=\"...\" to explain why this exception is necessary", none⟩] }

/-- What is left of a violation under the directives of a document. -/
def allow? (directives : AllowDirectives) (rule : Rule) (violation : Violation) :
    Option Violation :=
  match directives.permitting? violation.location.line [rule.name, rule.code] with
  | none => some violation
  | some directive =>
    if rule.requiresReason && directive.reason.isNone then some (missingReason rule violation)
    else none

def directives (analyzer : Analyzer) (doc : Document) : AllowDirectives :=
  if analyzer.config.analyzer.respectAllowComments then AllowDirectives.read doc.source else {}

def outcomes (analyzer : Analyzer) (doc : Document) : List (Rule × Option (List Violation)) :=
  analyzer.enabledRules.map fun rule => (rule, analyzer.run? doc rule)

/-- What a rule contributes to the report; a rule that fails contributes nothing. -/
def contribution (directives : AllowDirectives) (outcome : Rule × Option (List Violation)) :
    List Violation :=
  (outcome.2.getD []).filterMap (allow? directives outcome.1)

def faultedRules (outcomes : List (Rule × Option (List Violation))) : List String :=
  (outcomes.filter fun outcome => outcome.2.isNone).map fun outcome => outcome.1.name

def evaluate (analyzer : Analyzer) (doc : Document) : Report :=
  let outcomes := analyzer.outcomes doc
  { violations :=
      Report.collect doc.length (outcomes.flatMap (contribution (analyzer.directives doc)))
    filesChecked := 1
    faultedRules := faultedRules outcomes }

def analyze (analyzer : Analyzer) (text : List Char) : Report :=
  analyzer.evaluate (Document.read text analyzer.filter)

end Analyzer

end AccessibleMarkup
