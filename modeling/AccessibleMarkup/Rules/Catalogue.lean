import AccessibleMarkup.Rules.AriaAttributeValue
import AccessibleMarkup.Rules.HeadingOrder
import AccessibleMarkup.Rules.HiddenFocusable
import AccessibleMarkup.Rules.Identifiers
import AccessibleMarkup.Rules.LandmarkUniqueness
import AccessibleMarkup.Rules.ListItemCount
import AccessibleMarkup.Rules.ListNestingDepth
import AccessibleMarkup.Rules.ListSemantics
import AccessibleMarkup.Rules.LiveRegion
import AccessibleMarkup.Rules.PanelVisibility
import AccessibleMarkup.Rules.RequiredChildren
import AccessibleMarkup.Rules.RequiredParent
import AccessibleMarkup.Rules.RequiredState
import AccessibleMarkup.Rules.TabRovingFocus
import AccessibleMarkup.Rules.TablistSelection

/-! All rules that come with the linter, and the sets of them that go by a name. -/
namespace AccessibleMarkup

namespace Rules

structure Settings where
  /-- The severity of all rules, in place of their own. -/
  severity : Option Severity := none
  referenceKinds : List ReferenceKind := ReferenceKind.all
  ignoreTopLevel : Bool := false
  maxDepth : Nat := ListNestingDepth.defaultDepth
  maxItems : Nat := ListItemCount.defaultCount
  listSemantics : ListSemantics.Settings := {}

/-- The rules under some settings, in the order of their codes. -/
def catalogue (settings : Settings) : List Rule :=
  let severity (own : Severity) : Severity := settings.severity.getD own
  [TablistSelection.rule (severity .error),
    TabRovingFocus.rule (severity .warning),
    AriaReference.rule (severity .error) settings.referenceKinds,
    DuplicateId.rule (severity .error),
    PanelVisibility.rule (severity .warning),
    RequiredChildren.rule (severity .warning),
    RequiredParent.rule (severity .warning) settings.ignoreTopLevel,
    AriaAttributeValue.rule (severity .error),
    RequiredState.rule (severity .error),
    ListNestingDepth.rule (severity .info) settings.maxDepth,
    ListItemCount.rule (severity .info) settings.maxItems,
    ListSemantics.rule (severity .info) settings.listSemantics,
    LandmarkUniqueness.rule (severity .warning),
    LiveRegion.rule (severity .warning),
    HiddenFocusable.rule (severity .error),
    HeadingOrder.rule (severity .warning)]

def all : List Rule := catalogue {}

def find? (called : String) (settings : Settings := {}) : Option Rule :=
  (catalogue settings).find? (·.isCalled called)

def isKnown (called : String) : Bool := (find? called).isSome

end Rules

/-- A set of rules that goes by a name. -/
inductive Preset where
  /-- All rules about correctness. -/
  | recommended
  /-- All rules. -/
  | strict
  /-- Broken references and illegal values only. -/
  | minimal
  deriving DecidableEq, Repr

/-- A name that is no preset, without blanks at its ends and in lower case. -/
structure UnknownPreset where
  name : String
  deriving DecidableEq, Repr

def UnknownPreset.message (unknown : UnknownPreset) : String :=
  s!"unknown preset '{unknown.name}' (expected recommended, strict or minimal)"

namespace Preset

def name : Preset → String
  | recommended => "recommended"
  | strict => "strict"
  | minimal => "minimal"

def read (text : String) : Except UnknownPreset Preset :=
  match Text.asciiLower (Text.trim text) with
  | "recommended" => .ok recommended
  | "strict" => .ok strict
  | "minimal" => .ok minimal
  | other => .error ⟨other⟩

def heuristicCodes : List String := ["AR010", "AR011", "AR012"]

/-- The codes of the rules about references and values. -/
def minimalCodes : List String := ["AR003", "AR004", "AR008"]

def selects (preset : Preset) (rule : Rule) : Bool :=
  match preset with
  | recommended => !heuristicCodes.contains rule.code
  | strict => true
  | minimal => minimalCodes.contains rule.code

def rules (preset : Preset) : List Rule := Rules.all.filter preset.selects

end Preset

end AccessibleMarkup
