import AccessibleMarkup.Proofs.FixRounds

/-! A session never shows the report of another text. Whatever is done with it, in whatever order,
its report is missing or is the report on its text; a fix that is not made changes nothing, and one
that is made takes the report away, so that no fix is ever placed by offsets of an earlier text. -/
namespace AccessibleMarkup

/-- An error about the place or the name of a fix, not about the state of a session. -/
def FixError.OfText : FixError → Prop
  | anchorOutOfBounds _ _ => True
  | editOutOfBounds _ _ _ => True
  | invalidName _ => True
  | _ => False

theorem Edit.apply_error (edit : Edit) (text : List Char) (error : FixError)
    (failed : edit.apply text = .error error) : error.OfText := by
  unfold Edit.apply at failed
  dsimp only at failed
  split at failed
  · split_ifs at failed
    cases failed
    trivial
  · cases failed
    trivial

namespace Fix

theorem sliceForEdit_error (source : List Char) (start stop : Nat) (error : FixError)
    (failed : sliceForEdit source start stop = .error error) : error.OfText := by
  unfold sliceForEdit at failed
  split at failed
  · contradiction
  · cases failed
    trivial

theorem wrapElement_error (source : List Char) (node : Markup.Node) (tag : String)
    (attributes : List (String × String)) (error : FixError)
    (failed : wrapElement source node tag attributes = .error error) : error.OfText := by
  unfold wrapElement at failed
  cases found : sliceForEdit source node.start node.stop with
  | ok content => simp [found,bind,Except.bind,pure,Except.pure] at failed
  | error cause =>
    have same : cause = error := by simpa [found,bind,Except.bind] using failed
    exact same ▸ sliceForEdit_error _ _ _ _ found

theorem renameBoth_error (source : List Char) (node : Markup.Node) (name : String) (error : FixError)
    (failed : renameBoth source node name = .error error) : error.OfText := by
  unfold renameBoth at failed
  cases found : sliceForEdit source (nameStop node) (node.closeStart + 2) with
  | ok middle => simp [found,bind,Except.bind,pure,Except.pure] at failed
  | error cause =>
    have same : cause = error := by simpa [found,bind,Except.bind] using failed
    exact same ▸ sliceForEdit_error _ _ _ _ found

theorem map_error {α β : Type} (result : Except FixError α) (change : α → β) (error : FixError)
    (failed : result.map change = .error error) : result = .error error := by
  cases result with
  | ok value => contradiction
  | error cause => simpa [Except.map] using failed

theorem planOn_error (fix : Fix) (source : List Char) (target : FixTarget) (error : FixError)
    (failed : fix.planOn source target = .error error) : error.OfText := by
  unfold planOn at failed
  cases fix with
  | addAttribute name value => dsimp only at failed; split_ifs at failed
  | setAttribute name value => contradiction
  | removeAttribute name => dsimp only at failed; split at failed <;> contradiction
  | wrap tag attributes =>
    dsimp only at failed
    split_ifs at failed
    exact wrapElement_error _ _ _ _ _ (map_error _ _ _ failed)
  | remove => dsimp only at failed; split_ifs at failed
  | rename name =>
    dsimp only [planRename] at failed
    split_ifs at failed
    exact renameBoth_error _ _ _ _ (map_error _ _ _ failed)

theorem plan_error (fix : Fix) (source : List Char) (anchor : Nat) (filter : Markup.MarkupFilter)
    (error : FixError) (failed : fix.plan source anchor filter = .error error) : error.OfText := by
  unfold plan at failed
  dsimp only at failed
  split_ifs at failed
  · cases failed
    trivial
  · split at failed
    · cases failed
      trivial
    · split at failed
      · contradiction
      · exact planOn_error _ _ _ _ failed

end Fix

namespace Session

variable (analyzer : Analyzer)

inductive Operation where
  | start (text : List Char)
  | evaluate
  | apply (violation suggestion : Nat)
  | fixAll (maxPasses : Nat)
  deriving DecidableEq, Repr

/-- The session after an operation, whatever came of it. -/
def perform (session : Session) : Operation → Session
  | .start text => { text }
  | .evaluate => session.evaluate analyzer
  | .apply violation suggestion => ((mend analyzer violation suggestion).run session).2
  | .fixAll maxPasses => (session.fixAll analyzer maxPasses).2

def Fresh (session : Session) : Prop :=
  session.report = none ∨ session.report = some (analyzer.analyze session.text)

theorem selectFix_stale_iff (session : Session) (violation suggestion : Nat) :
    session.selectFix violation suggestion = .error .staleReport ↔ session.report = none := by
  unfold selectFix
  cases session.report with
  | none => simp
  | some report =>
    dsimp only
    split
    · simp
    · split <;> simp

/-- What a fix that is tried comes to, and the session that it leaves: it is refused for want of a report, it
fails for another cause, it is skipped, or it is made. -/
inductive Attempt (session : Session) (violation suggestion : Nat) : Prop
  | refused (missing : session.report = none)
      (ran : (mend analyzer violation suggestion).run session = (.error .staleReport,session))
  | failed (present : session.report ≠ none) (cause : FixError) (other : cause ≠ .staleReport)
      (ran : (mend analyzer violation suggestion).run session = (.error cause,session))
  | skipped (present : session.report ≠ none) (reason : SkipReason)
      (ran : (mend analyzer violation suggestion).run session = (.ok (.skipped reason),session))
  | applied (present : session.report ≠ none) (edit : Edit) (next : List Char)
      (made : edit.apply session.text = .ok next)
      (ran : (mend analyzer violation suggestion).run session = (.ok (.applied edit),{ text := next }))

theorem mend_attempt (session : Session) (violation suggestion : Nat) :
    Attempt analyzer session violation suggestion := by
  have ofText {cause : FixError} (text : cause.OfText) : cause ≠ .staleReport := by
    rintro rfl
    exact text
  have ran := mend_run analyzer violation suggestion session
  have stale := selectFix_stale_iff session violation suggestion
  cases selected : session.selectFix violation suggestion with
  | error cause =>
    rw [selected] at ran stale
    by_cases missing : session.report = none
    · obtain rfl := Except.error.inj (stale.mpr missing)
      exact .refused missing ran
    · exact .failed missing cause (fun same => missing (stale.mp (congrArg _ same))) ran
  | ok pair =>
    obtain ⟨found,fix⟩ := pair
    rw [selected] at ran stale
    dsimp only at ran
    have present : session.report ≠ none := fun missing => nomatch stale.mpr missing
    cases planned : fix.plan session.text found.location.offset analyzer.filter with
    | error cause =>
      rw [planned] at ran
      exact .failed present cause (ofText (Fix.plan_error _ _ _ _ _ planned)) ran
    | ok outcome =>
      rw [planned] at ran
      cases outcome with
      | skipped reason => exact .skipped present reason ran
      | applied edit =>
        dsimp only at ran
        cases made : edit.apply session.text with
        | error cause =>
          rw [made] at ran
          exact .failed present cause (ofText (Edit.apply_error _ _ _ made)) ran
        | ok next =>
          rw [made] at ran
          exact .applied present edit next made ran

theorem Fresh.perform {session : Session} (fresh : session.Fresh analyzer) (operation : Operation) :
    (session.perform analyzer operation).Fresh analyzer := by
  cases operation with
  | start text => exact Or.inl rfl
  | evaluate => exact Or.inr rfl
  | fixAll maxPasses =>
    obtain ⟨_,outcome,_⟩ := fixAll_outcome analyzer session maxPasses
    exact Or.inr outcome.evaluated
  | apply violation suggestion =>
    change Session.Fresh analyzer ((mend analyzer violation suggestion).run session).2
    cases mend_attempt analyzer session violation suggestion with
    | refused _ ran => rwa [ran]
    | failed _ _ _ ran => rwa [ran]
    | skipped _ _ ran => rwa [ran]
    | applied _ _ _ _ ran =>
      rw [ran]
      exact Or.inl rfl

theorem foldl_perform_fresh (operations : List Operation) (session : Session)
    (fresh : session.Fresh analyzer) :
    (operations.foldl (perform analyzer) session).Fresh analyzer := by
  induction operations generalizing session with
  | nil => exact fresh
  | cons operation rest ih => exact ih _ (fresh.perform analyzer operation)

/-- What trying a fix does to a session: it is refused exactly without a report, an error or a skip leaves the
session as it is, and a fix that is made leaves the edited text without a report, so that the next one is
refused. An edit that is planned and fits the text is made. -/
structure ApplySound (session : Session) (violation suggestion : Nat) : Prop where
  refused : ((mend analyzer violation suggestion).run session).1 = .error .staleReport ↔ session.report = none
  failed : ∀ cause, ((mend analyzer violation suggestion).run session).1 = .error cause →
    ((mend analyzer violation suggestion).run session).2 = session
  skipped : ∀ reason, ((mend analyzer violation suggestion).run session).1 = .ok (.skipped reason) →
    ((mend analyzer violation suggestion).run session).2 = session
  applied : ∀ edit, ((mend analyzer violation suggestion).run session).1 = .ok (.applied edit) →
    let next := ((mend analyzer violation suggestion).run session).2
    edit.apply session.text = .ok next.text ∧ next.report = none ∧
      ∀ again other, (mend analyzer again other).run next = (.error .staleReport,next)
  made : ∀ found fix edit next, session.selectFix violation suggestion = .ok (found,fix) →
    fix.plan session.text found.location.offset analyzer.filter = .ok (.applied edit) →
    edit.apply session.text = .ok next →
    ((mend analyzer violation suggestion).run session).1 = .ok (.applied edit)

theorem applySound (session : Session) (violation suggestion : Nat) :
    session.ApplySound analyzer violation suggestion := by
  have made (found : Violation) (fix : Fix) (edit : Edit) (next : List Char)
      (selected : session.selectFix violation suggestion = .ok (found,fix))
      (planned : fix.plan session.text found.location.offset analyzer.filter = .ok (.applied edit))
      (fits : edit.apply session.text = .ok next) :
      ((mend analyzer violation suggestion).run session).1 = .ok (.applied edit) := by
    rw [mend_run,selected]
    dsimp only
    rw [planned]
    dsimp only
    rw [fits]
  cases mend_attempt analyzer session violation suggestion with
  | refused missing ran => exact ⟨by simp [ran,missing],by simp [ran],by simp [ran],by simp [ran],made⟩
  | failed present cause other ran => exact ⟨by simp [ran,other,present],by simp [ran],by simp [ran],by simp [ran],made⟩
  | skipped present reason ran => exact ⟨by simp [ran,present],by simp [ran],by simp [ran],by simp [ran],made⟩
  | applied present edit next fits ran =>
    refine ⟨by simp [ran,present],by simp [ran],by simp [ran],fun other same => ?_,made⟩
    rw [ran] at same ⊢
    obtain rfl := FixOutcome.applied.inj (Except.ok.inj same)
    refine ⟨fits,rfl,fun again other => ?_⟩
    cases mend_attempt analyzer { text := next } again other with
    | refused _ ran => exact ran
    | failed present | skipped present | applied present => exact absurd rfl present

/-- After any operations in any order the report is missing or belongs to the text, and every fix
that is tried then keeps it so. -/
theorem session_never_outdated (text : List Char) (operations : List Operation) :
    let session := operations.foldl (perform analyzer) { text }
    (session.report = none ∨ session.report = some (analyzer.analyze session.text)) ∧
      ∀ violation suggestion, session.ApplySound analyzer violation suggestion := by
  intro session
  exact ⟨foldl_perform_fresh analyzer operations _ (Or.inl rfl),applySound analyzer session⟩

end Session

end AccessibleMarkup
