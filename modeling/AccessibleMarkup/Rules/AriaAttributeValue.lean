import AccessibleMarkup.Rules.Basic

/-! Attributes with a fixed set of values hold one of them. -/
namespace AccessibleMarkup.Rules.AriaAttributeValue

open Markup

def head (severity : Severity) : RuleHead :=
  { code := "AR008"
    name := "aria-attribute-value"
    description := "Requires enumerated ARIA attributes to hold one of their legal values"
    severity }

def twoValues : List String := ["true", "false"]
def threeValues : List String := ["true", "false", "undefined"]
def mixedValues : List String := ["true", "false", "mixed", "undefined"]

/-- The attributes that hold one value, with the legal values. -/
def singleValued : List (String × List String) :=
  [("aria-selected", threeValues), ("aria-expanded", threeValues), ("aria-hidden", threeValues),
    ("aria-grabbed", threeValues), ("aria-checked", mixedValues), ("aria-pressed", mixedValues),
    ("aria-disabled", twoValues), ("aria-busy", twoValues), ("aria-modal", twoValues),
    ("aria-atomic", twoValues), ("aria-multiline", twoValues),
    ("aria-multiselectable", twoValues), ("aria-readonly", twoValues),
    ("aria-required", twoValues), ("aria-orientation", ["horizontal", "vertical", "undefined"]),
    ("aria-live", ["off", "polite", "assertive"]),
    ("aria-autocomplete", ["inline", "list", "both", "none"]),
    ("aria-sort", ["ascending", "descending", "none", "other"]),
    ("aria-current", ["page", "step", "location", "date", "time", "true", "false"]),
    ("aria-haspopup", ["false", "true", "menu", "listbox", "tree", "grid", "dialog"]),
    ("aria-invalid", ["grammar", "false", "spelling", "true"])]

/-- The attributes that hold a list of words, with the legal words. -/
def manyValued : List (String × List String) :=
  [("aria-relevant", ["additions", "removals", "text", "all"])]

def legalValues? (table : List (String × List String)) (name : String) : Option (List String) :=
  (table.find? fun entry => Text.sameIgnoringCase name entry.1).map (·.2)

/-- Whether the words of a value are legal; there has to be one. -/
def legalWords (value : String) (legal : List String) : Bool :=
  value != "" && (Text.words value).all fun word => Text.oneOfIgnoringCase word legal

/-- The legal values of the attribute, if its value is none of them. What a template makes is not
judged. -/
def violated? (attr : Attribute) : Option (List String) :=
  let value := Text.trim attr.value
  if isDynamic attr.value then none
  else match legalValues? singleValued attr.name with
    | some legal => if Text.oneOfIgnoringCase value legal then none else some legal
    | none => (legalValues? manyValued attr.name).filter fun legal => !legalWords value legal

def correction? (value : String) : Option String :=
  match Text.asciiLower value with
  | "yes" | "1" | "on" => some "true"
  | "no" | "0" | "off" => some "false"
  | _ => none

def suggestion (name value : String) (legal : List String) : Suggestion :=
  let choices := String.intercalate ", " legal
  match (correction? value).filter legal.contains with
  | some meant => ⟨s!"Use {name}=\"{meant}\"", some (.setAttribute (Text.asciiLower name) meant)⟩
  | none => ⟨s!"Use one of: {choices}", none⟩

def judge? (head : RuleHead) (doc : Document) (i : Nat) (attr : Attribute) :
    Option Violation := do
  let legal ← violated? attr
  let value := Text.trim attr.value
  let choices := String.intercalate ", " legal
  let message :=
    if value = "" then s!"{attr.name} has an empty value; expected one of: {choices}"
    else s!"Invalid value \"{value}\" for {attr.name}; expected one of: {choices}"
  return head.violation (doc.attributeLocation i attr.name) message
    [suggestion attr.name value legal]

def check (head : RuleHead) (doc : Document) : List Violation :=
  doc.indexed.flatMap fun (element, i) => element.attributes.filterMap (judge? head doc i)

def rule (severity : Severity := .error) : Rule := (head severity).withCheck check

end AccessibleMarkup.Rules.AriaAttributeValue
