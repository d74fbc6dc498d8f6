import AccessibleMarkup.Rules.Basic

/-! Lists are not nested too deeply. -/
namespace AccessibleMarkup.Rules.ListNestingDepth

open Markup

def head (severity : Severity) : RuleHead :=
  { code := "AR010"
    name := "list-nesting-depth"
    description := "Flags lists nested deeper than max_depth levels"
    severity }

def defaultDepth : Nat := 3

/-- The level that a block allows. A negative one stands for the usual level. -/
def configuredDepth (block : RuleBlock) (allowed : Nat) : Nat :=
  match block.integer "max_depth" allowed with
  | .ofNat depth => max depth 1
  | .negSucc _ => defaultDepth

def isPlaced (element : Element) : Bool := element.isKnown && !element.detached

/-- The level of an element, given those of the elements before it: one for an outermost list, and one
more than the level of the nearest list around it for any other. There is no level for what is no list,
and none unless the surroundings can be trusted. -/
def fetchLevel (doc : Document) (levels : List (Option Nat)) (element : Element) (i : Nat) :
    Checked (Option Nat) := do
  if element.hasRole "list" && isPlaced element then
    match ← doc.fetchNearest i (·.hasRoleIn ["list"]) with
    | some outer => return (← levels[outer]?).map (· + 1)
    | none => return some 1
  else return none

/-- The levels of all elements, outer lists before those in them. -/
def fetchLevels (doc : Document) : Checked (List (Option Nat)) :=
  doc.indexed.foldlM (fun levels (element, i) => do
    return levels.set i (← fetchLevel doc levels element i)) (List.replicate doc.elements.length none)

def report (allowed : Nat) (head : RuleHead) (doc : Document) (i reached : Nat) : Violation :=
  head.violation (doc.openTagLocation i)
    s!"Lists are nested {reached} levels deep here (maximum {allowed})"
    [⟨"Flatten the hierarchy or split it into separate sections with headings", none⟩]

/-- Judges a list with its level: it may be the first one below the allowed level. -/
def runOn (allowed : Nat) (head : RuleHead) (doc : Document) (levels : List (Option Nat))
    (entry : Option Nat × Nat) : Checked (Option Violation) := do
  let (level, i) := entry
  if level = some (allowed + 1) then
    let inner ← (doc.descendants i).mapM fun inner => levels[inner]?
    return some (report allowed head doc i ((inner.filterMap id).foldl max (allowed + 1)))
  else return none

def run (allowed : Nat) (head : RuleHead) (doc : Document) : Checked (List Violation) := do
  let levels ← fetchLevels doc
  levels.zipIdx.filterMapM (runOn allowed head doc levels)

/-- The rule for an allowed level of at least one; the block of the rule can set it. -/
def rule (severity : Severity := .info) (allowed : Nat := defaultDepth) : Rule :=
  { head severity with
    check := fun block doc => run (configuredDepth block (max allowed 1)) (head severity) doc }

end AccessibleMarkup.Rules.ListNestingDepth
