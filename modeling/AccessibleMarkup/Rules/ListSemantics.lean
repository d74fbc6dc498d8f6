import AccessibleMarkup.Rules.Basic

/-! Lists whose items read as steps, a ranking or a chronology are ordered lists. -/
namespace AccessibleMarkup.Rules.ListSemantics

def head (severity : Severity) : RuleHead :=
  { code := "AR012"
    name := "list-semantics"
    description := "Recommends <ol> for unordered lists of steps, rankings or dates"
    severity }

/-- The kinds of order that the text of an item can imply. -/
inductive ContentKind where
  | sequential
  | ranking
  | chronological
  deriving DecidableEq, Repr

namespace ContentKind

def all : List ContentKind := [sequential, ranking, chronological]

def describe : ContentKind → String
  | sequential => "sequential steps"
  | ranking => "a ranking"
  | chronological => "a chronology"

open Text Text.Pattern

/-- Numbered steps, words for a place in a sequence, and numbers with a point or bracket. -/
def sequentialPattern : Pattern :=
  choice [
    sequence [
      oneOf ["step", "phase", "stage", "part", "chapter", "lesson", "module", "round"],
      blanks, someDigits, wordEdge],
    sequence [
      oneOf ["first", "second", "third", "fourth", "fifth", "then", "next", "finally", "lastly",
        "afterwards"],
      wordEdge],
    sequence [digits 1 3, blanks, oneIn ['.', ')'], someBlanks, one fun c => !isBlank c]]

/-- Numbers of a rank, and words for a place on the podium. -/
def rankingPattern : Pattern :=
  choice [
    sequence [phrase "#", blanks, someDigits],
    sequence [phrase "no.", blanks, someDigits],
    sequence [phrase "top", someBlanks, someDigits],
    sequence [phrase "rank", optional (phrase "ed"), blanks, someDigits],
    sequence [someDigits, oneOf ["st", "nd", "rd", "th"], someBlanks, phrase "place", wordEdge],
    sequence [
      choice [
        oneOf ["gold", "silver", "bronze", "winner"],
        sequence [phrase "runner", oneIn ['-', ' '], phrase "up"]],
      wordEdge]]

/-- A hyphen, slash or point between the parts of a date. -/
def dateMark : Pattern := oneIn ['-', '/', '.']

/-- Dates, times, months with a number, years of two centuries and days of the week. -/
def chronologicalPattern : Pattern :=
  choice [
    sequence [
      digits 4 4, dateMark, digits 1 2, optional (sequence [dateMark, digits 1 2]), wordEdge],
    sequence [digits 1 2, dateMark, digits 1 2, dateMark, digits 2 4, wordEdge],
    sequence [digits 1 2, oneIn [':'], digits 2 2, wordEdge],
    sequence [
      oneOf ["jan", "feb", "mar", "apr", "may", "jun", "jul", "aug", "sep", "sept", "oct", "nov",
        "dec"],
      many isAsciiLetter, optional (oneIn ['.']), someBlanks, digits 1 4, wordEdge],
    sequence [oneOf ["19", "20"], digits 2 2, wordEdge],
    sequence [
      oneOf ["monday", "tuesday", "wednesday", "thursday", "friday", "saturday", "sunday"],
      wordEdge]]

def pattern : ContentKind → Pattern
  | sequential => sequentialPattern
  | ranking => rankingPattern
  | chronological => chronologicalPattern

/-- Whether a text, blanks at its start aside, reads as an item of this kind. -/
def reads (kind : ContentKind) (text : String) : Bool :=
  kind.pattern.matchesStart (trimStart text.toList)

end ContentKind

/-- When items are judged, and what share of them has to agree. -/
structure Settings where
  /-- The least number of items to judge. -/
  minItems : Nat := 2
  /-- How many items are looked at. -/
  maxSample : Nat := 20
  /-- The share of the items, in percent, that decides. -/
  threshold : Nat := 60
  deriving DecidableEq, Repr

namespace Settings

/-- At least one item, and a share between one and a hundred percent. -/
def normalize (settings : Settings) : Settings :=
  { minItems := max settings.minItems 1
    maxSample := max settings.maxSample 1
    threshold := min (max settings.threshold 1) 100 }

/-- The number under a key of a block; a negative one changes nothing. -/
def natural (block : RuleBlock) (key : String) (current : Nat) : Nat :=
  match block.integer key current with
  | .ofNat number => number
  | .negSucc _ => current

def configure (settings : Settings) (block : RuleBlock) : Settings :=
  normalize {
    minItems := natural block "min_items" settings.minItems
    maxSample := natural block "max_sample" settings.maxSample
    threshold := natural block "threshold_percent" settings.threshold }

end Settings

/-- The kind that won, the number of items of it, and the number of items looked at. -/
structure Classification where
  kind : ContentKind
  matched : Nat
  sampled : Nat
  deriving DecidableEq, Repr

/-- The items that are looked at: those with text that no template makes, up to a number. -/
def sample (maxSample : Nat) (items : List String) : List String :=
  ((items.map Text.trim).filter fun item => item != "" && !Markup.isDynamic item).take maxSample

/-- The kind that more of the items have than any other, if they are enough and their share is
large enough. -/
def classify (reads : ContentKind → String → Bool) (settings : Settings) (items : List String) :
    Option Classification :=
  let sampled := sample settings.maxSample items
  let votes (kind : ContentKind) : Nat := sampled.countP (reads kind)
  let best := (ContentKind.all.map votes).foldl max 0
  if sampled.length < settings.minItems then none
  else match ContentKind.all.filter fun kind => votes kind == best with
    | [kind] =>
      if 0 < best && sampled.length * settings.threshold ≤ best * 100 then
        some ⟨kind, best, sampled.length⟩
      else none
    | _ => none

def report (head : RuleHead) (doc : Document) (list : Nat) (found : Classification) : Violation :=
  let kind := found.kind.describe
  head.violation (doc.openTagLocation list)
    s!"List items read as {kind} ({found.matched} of {found.sampled} items); consider an ordered list (<ol>)"
    [⟨"Change <ul> to <ol>", some (.rename "ol")⟩]

def runOn (settings : Settings) (head : RuleHead) (doc : Document) (list : Nat) :
    Checked (Option Violation) := do
  let element ← doc.fetch list
  if !element.hasRole "list" || !element.isKnown then return none
  let items ← doc.fetchMembers list ["listitem"] ["list"]
  let texts ← items.mapM doc.fetchInnerText
  return (classify ContentKind.reads settings texts).map (report head doc list)

def run (settings : Settings) (head : RuleHead) (doc : Document) : Checked (List Violation) :=
  (doc.named "ul").filterMapM (runOn settings head doc)

/-- The rule for the settings; the block of the rule can change them. -/
def rule (severity : Severity := .info) (settings : Settings := {}) : Rule :=
  { head severity with
    check := fun block doc => run (settings.normalize.configure block) (head severity) doc }

end AccessibleMarkup.Rules.ListSemantics
