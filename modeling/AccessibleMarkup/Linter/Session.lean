import AccessibleMarkup.Linter.Analyzer
import AccessibleMarkup.Repair.Plan

/-! Sessions: a text that is evaluated and mended by turns. A report is of use only for the text that
it was made from, so a fix that is made throws it away. -/
namespace AccessibleMarkup

/-- What came of mending a text. -/
structure FixReport where
  /-- The number of fixes made. -/
  applied : Nat
  /-- The number of rounds. -/
  passes : Nat
  /-- The number of violations left. -/
  remaining : Nat
  /-- Whether there was nothing more to mend. -/
  converged : Bool
  text : List Char
  deriving DecidableEq, Repr

namespace FixReport

def changed (report : FixReport) : Bool := 0 < report.applied

def defaultPasses : Nat := 32

end FixReport

/-- A text with the report on it, unless that is out of date. -/
structure Session where
  text : List Char
  report : Option Report := none
  deriving DecidableEq, Repr

namespace Session

/-- Whether the text has to be evaluated before a fix can be made. -/
def isStale (session : Session) : Bool := session.report.isNone

def evaluate (analyzer : Analyzer) (session : Session) : Session :=
  { session with report := some (analyzer.analyze session.text) }

@[simp] theorem text_evaluate (analyzer : Analyzer) (session : Session) :
    (session.evaluate analyzer).text = session.text := rfl

@[simp] theorem report_evaluate (analyzer : Analyzer) (session : Session) :
    (session.evaluate analyzer).report = some (analyzer.analyze session.text) := rfl

/-- The fix of a suggestion of a violation, with the violation. -/
def selectFix (session : Session) (violation suggestion : Nat) :
    Except FixError (Violation × Fix) :=
  match session.report with
  | none => .error .staleReport
  | some report =>
    match report.violations[violation]? with
    | none => .error (.noSuchViolation violation report.violations.length)
    | some found =>
      match (found.suggestions[suggestion]?).bind (·.fix) with
      | none => .error (.noSuchFix violation suggestion)
      | some fix => .ok (found, fix)

/-- What is done with a session. It comes to a result or to an error, and leaves a session either
way. -/
abbrev Action (α : Type) : Type := ExceptT FixError (StateM Session) α

theorem run_bind {α β : Type} (first : Action α) (further : α → Action β) (session : Session) :
    (first >>= further).run session = match first.run session with
      | (.ok value, next) => (further value).run next
      | (.error cause, next) => (.error cause, next) := by
  change ExceptT.bindCont further (first.run session).1 (first.run session).2 = _
  rcases first.run session with ⟨_ | _, _⟩ <;> rfl

theorem run_get_bind {β : Type} (further : Session → Action β) (session : Session) :
    ((get : Action Session) >>= further).run session = (further session).run session := rfl

theorem run_liftM_bind {α β : Type} (result : Except FixError α) (further : α → Action β)
    (session : Session) : ((liftM result : Action α) >>= further).run session = match result with
      | .ok value => (further value).run session
      | .error cause => (.error cause, session) := by
  cases result <;> rfl

def commit (edit : Edit) : Action Unit := do
  let session ← get
  let text ← edit.apply session.text
  set { session with text }
  modify fun session => { session with report := none }

/-- An edit that cannot be made leaves the session as it is. -/
theorem commit_run (edit : Edit) (session : Session) :
    (commit edit).run session = match edit.apply session.text with
      | .ok next => (.ok (), { text := next })
      | .error cause => (.error cause, session) := by
  rw [commit, run_get_bind, run_liftM_bind]
  cases edit.apply session.text <;> rfl

/-- Makes the fix of a suggestion of a violation. A fix that is skipped changes nothing. -/
def mend (analyzer : Analyzer) (violation suggestion : Nat) : Action FixOutcome := do
  let session ← get
  let (found, fix) ← session.selectFix violation suggestion
  let outcome ← fix.plan session.text found.location.offset analyzer.filter
  match outcome with
  | .applied edit => commit edit
  | .skipped _ => pure ()
  return outcome

theorem mend_run (analyzer : Analyzer) (violation suggestion : Nat) (session : Session) :
    (mend analyzer violation suggestion).run session =
      match session.selectFix violation suggestion with
      | .error cause => (.error cause, session)
      | .ok (found, fix) =>
        match fix.plan session.text found.location.offset analyzer.filter with
        | .error cause => (.error cause, session)
        | .ok (.skipped reason) => (.ok (.skipped reason), session)
        | .ok (.applied edit) =>
          match edit.apply session.text with
          | .ok next => (.ok (.applied edit), { text := next })
          | .error cause => (.error cause, session) := by
  rw [mend, run_get_bind, run_liftM_bind]
  cases session.selectFix violation suggestion with
  | error cause => rfl
  | ok selected =>
    dsimp only
    rw [run_liftM_bind]
    cases selected.2.plan session.text selected.1.location.offset analyzer.filter with
    | error cause => rfl
    | ok outcome =>
      cases outcome with
      | skipped reason => rfl
      | applied edit =>
        dsimp only
        rw [run_bind, commit_run]
        cases edit.apply session.text <;> rfl

/-- The outcome of a fix and the session after it, for callers that go no further after an error. -/
def apply (analyzer : Analyzer) (session : Session) (violation suggestion : Nat) :
    Except FixError (FixOutcome × Session) :=
  match (mend analyzer violation suggestion).run session with
  | (.ok outcome, next) => .ok (outcome, next)
  | (.error cause, _) => .error cause

/-- The edit of a fix at a place. A fix that cannot be made has none. -/
def editOf? (analyzer : Analyzer) (text : List Char) (offset : Nat) (fix : Fix) : Option Edit :=
  (fix.plan text offset analyzer.filter).toOption.bind (·.edit?)

/-- The first edit that a violation of the report offers. -/
def firstEdit? (analyzer : Analyzer) (text : List Char) (report : Report) : Option Edit :=
  report.violations.findSome? fun violation =>
    violation.fixes.findSome? (editOf? analyzer text violation.location.offset)

/-- The first edit on offer, by the report that the session has. -/
def nextEdit? (analyzer : Analyzer) (session : Session) : Option Edit :=
  session.report.bind (firstEdit? analyzer session.text)

/-- Whether an edit leaves a text as it is, or cannot be made. -/
def isIdle (edit : Edit) (text : List Char) : Bool :=
  match edit.apply text with
  | .ok next => next == text
  | .error _ => true

/-- Where mending stands. -/
structure Tally where
  /-- The number of fixes made. -/
  applied : Nat := 0
  /-- The number of rounds begun. -/
  passes : Nat := 0
  converged : Bool := false
  deriving DecidableEq, Repr

/-- Evaluates and makes the first fix, again and again. It ends when the rounds are used up, when no fix
is on offer, or when the first one changes nothing. -/
def fixLoop (analyzer : Analyzer) (maxPasses : Nat) (tally : Tally) (session : Session) :
    Tally × Session :=
  let session := session.evaluate analyzer
  if maxPasses ≤ tally.passes then (tally, session)
  else
    let tally := { tally with passes := tally.passes + 1 }
    match session.nextEdit? analyzer with
    | none => ({ tally with converged := true }, session)
    | some edit =>
      if isIdle edit session.text then ({ tally with converged := true }, session)
      else match (commit edit).run session with
        | (.error _, next) => ({ tally with converged := true }, next)
        | (.ok (), next) =>
          fixLoop analyzer maxPasses { tally with applied := tally.applied + 1 } next
termination_by maxPasses - tally.passes

/-- Mends the text until nothing more can be mended or the rounds are used up. -/
def fixAll (analyzer : Analyzer) (session : Session) (maxPasses : Nat) : FixReport × Session :=
  let (tally, session) := fixLoop analyzer maxPasses {} session
  ({ applied := tally.applied
     passes := tally.passes
     remaining := (session.report.map (·.violations.length)).getD 0
     converged := tally.converged
     text := session.text }, session)

end Session

end AccessibleMarkup
