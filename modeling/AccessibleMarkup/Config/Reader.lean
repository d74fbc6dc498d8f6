import AccessibleMarkup.Config.Basic
import AccessibleMarkup.Toml.Reader

/-! Reading a configuration from TOML. Keys that nothing knows are passed over, except in the block
of a rule, where they are options of the rule. -/
namespace AccessibleMarkup

open Toml (Value)

namespace Config

/-- The value of a key, or what holds without it. A value of the wrong kind is an error. -/
def fieldOr {α : Type} (entries : List (String × Value)) (key : String) (read : Value → Option α)
    (otherwise : α) : Option α :=
  match entries.lookup key with
  | some value => read value
  | none => some otherwise

/-- The names of positions, for a table that is written as an array of its values. -/
def entriesOf? (keys : List String) : Value → Option (List (String × Value))
  | .array items => some (keys.zip items)
  | value => value.asTable?

def readAnalyzer? (value : Value) : Option AnalyzerConfig := do
  let entries ← entriesOf?
    ["root", "include", "exclude", "respect_gitignore", "respect_allow_comments", "parallel"] value
  let standard := AnalyzerConfig.empty
  return {
    root := ← fieldOr entries "root" (·.asString?) standard.root
    included := ← fieldOr entries "include" (·.asStrings?) standard.included
    excluded := ← fieldOr entries "exclude" (·.asStrings?) standard.excluded
    respectGitignore := ←
      fieldOr entries "respect_gitignore" (·.asBoolean?) standard.respectGitignore
    respectAllowComments := ←
      fieldOr entries "respect_allow_comments" (·.asBoolean?) standard.respectAllowComments
    parallel := ← fieldOr entries "parallel" (·.asBoolean?) standard.parallel }

def readFilter? (value : Value) : Option FilterConfig := do
  let entries ← entriesOf? ["enabled", "prefixes"] value
  let standard : FilterConfig := {}
  return {
    enabled := ← fieldOr entries "enabled" (·.asBoolean?) standard.enabled
    nameSpaces := ← fieldOr entries "prefixes" (·.asStrings?) standard.nameSpaces }

/-- A severity by its name, alone or as the only key of a table with nothing under it. -/
def readSeverity? : Value → Option Severity
  | .string name => Severity.ofName? name
  | .table [(name, .table [])] => Severity.ofName? name
  | .table [(name, .array [])] => Severity.ofName? name
  | _ => none

def readBlock? (value : Value) : Option RuleBlock := do
  let entries ← value.asTable?
  return {
    enabled := ← fieldOr entries "enabled" (fun value => value.asBoolean?.map some) none
    severity := ← fieldOr entries "severity" (fun value => (readSeverity? value).map some) none
    options := ← Value.entriesWithMoments?
      (entries.filter fun entry => entry.1 != "enabled" && entry.1 != "severity") }

def readBlocks? (value : Value) : Option (List (String × RuleBlock)) := do
  let entries ← value.asTable?
  entries.mapM fun (name, block) => return (name, ← readBlock? block)

/-- The configuration that the entries of a document give. -/
def ofEntries? (entries : List (String × Value)) : Option Config := do
  return {
    preset := ← fieldOr entries "preset" (fun value => value.asString?.map some) none
    failOn := ← fieldOr entries "fail_on" (fun value => value.asString?.map some) none
    analyzer := ← fieldOr entries "analyzer" readAnalyzer? .standard
    filter := ← fieldOr entries "filter" readFilter? {}
    rules := ← fieldOr entries "rules" readBlocks? [] }

def read (text : List Char) : Except ConfigError Config :=
  match (Toml.read? text).bind ofEntries? with
  | some config => .ok config
  | none => .error .malformed

end Config

end AccessibleMarkup
