import AccessibleMarkup.Linter.Session
import Mathlib.Tactic.SplitIfs

/-! The rounds of mending. Each round but the last makes the first edit that the report on the text offers,
and that edit changes the text. So the counters of the final report say how far mending came, the session
is left evaluated, and where it came to rest it stays. -/
namespace AccessibleMarkup.Session

variable (analyzer : Analyzer)

@[simp] theorem toOption_eq_some {α : Type} {result : Except FixError α} {value : α} :
    result.toOption = some value ↔ result = .ok value := by
  cases result with
  | error cause => simp [Except.toOption]
  | ok found => simp [Except.toOption]

theorem editOf?_eq_some {text : List Char} {offset : Nat} {fix : Fix} {edit : Edit} :
    editOf? analyzer text offset fix = some edit ↔
      fix.plan text offset analyzer.filter = .ok (.applied edit) := by
  rw [editOf?,Option.bind_eq_some_iff]
  simp only [toOption_eq_some]
  constructor
  · rintro ⟨outcome,planned,given⟩
    cases outcome with
    | applied made =>
      obtain rfl := Option.some.inj given
      exact planned
    | skipped reason => contradiction
  · exact fun planned => ⟨_,planned,rfl⟩

theorem planned_of_firstEdit? {text : List Char} {report : Report} {edit : Edit}
    (first : firstEdit? analyzer text report = some edit) :
    ∃ violation ∈ report.violations, ∃ fix ∈ violation.fixes,
      fix.plan text violation.location.offset analyzer.filter = .ok (.applied edit) := by
  obtain ⟨violation,member,found⟩ := List.exists_of_findSome?_eq_some first
  obtain ⟨fix,offered,given⟩ := List.exists_of_findSome?_eq_some found
  exact ⟨violation,member,fix,offered,(editOf?_eq_some analyzer).mp given⟩

/-- The text after the first edit that the report on it offers, if that changes anything. -/
def improve? (text : List Char) : Option (List Char) := do
  let edit ← firstEdit? analyzer text (analyzer.analyze text)
  let next ← (edit.apply text).toOption
  if next = text then none else some next

theorem improve?_eq_some_iff {text next : List Char} :
    improve? analyzer text = some next ↔
      ∃ edit, firstEdit? analyzer text (analyzer.analyze text) = some edit ∧
        edit.apply text = .ok next ∧ next ≠ text := by
  simp only [improve?,Option.bind_eq_bind,Option.bind_eq_some_iff,toOption_eq_some]
  constructor
  · rintro ⟨edit,offered,made,applied,changed⟩
    split_ifs at changed with same
    obtain rfl := Option.some.inj changed
    exact ⟨edit,offered,applied,same⟩
  · rintro ⟨edit,offered,applied,changed⟩
    exact ⟨edit,offered,next,applied,if_neg changed⟩

theorem improve?_of_nothing {text : List Char}
    (offered : firstEdit? analyzer text (analyzer.analyze text) = none) : improve? analyzer text = none := by
  rw [improve?,offered]
  rfl

theorem isIdle_eq_false_iff {edit : Edit} {text : List Char} :
    isIdle edit text = false ↔ ∃ next, edit.apply text = .ok next ∧ next ≠ text := by
  unfold isIdle
  cases edit.apply text with
  | error cause => simp
  | ok next => simp

theorem improve?_of_idle {text : List Char} {edit : Edit}
    (offered : firstEdit? analyzer text (analyzer.analyze text) = some edit) (idle : isIdle edit text = true) :
    improve? analyzer text = none := by
  cases improved : improve? analyzer text with
  | none => rfl
  | some next =>
    obtain ⟨other,first,made,changed⟩ := (improve?_eq_some_iff analyzer).mp improved
    obtain rfl := Option.some.inj (offered.symm.trans first)
    rw [isIdle_eq_false_iff.mpr ⟨next,made,changed⟩] at idle
    contradiction

/-- What one turn of the loop comes to. It ends at the limit, with nothing on offer or with an edit that has no
effect; otherwise an edit is made and the loop goes on. -/
inductive Turn (maxPasses : Nat) (tally : Tally) (session : Session) : Prop
  | limit (reached : maxPasses ≤ tally.passes)
      (ends : fixLoop analyzer maxPasses tally session = (tally,session.evaluate analyzer))
  | nothing (within : tally.passes < maxPasses)
      (offered : firstEdit? analyzer session.text (analyzer.analyze session.text) = none)
      (ends : fixLoop analyzer maxPasses tally session =
        ({ tally with passes := tally.passes + 1, converged := true },session.evaluate analyzer))
  | idle (within : tally.passes < maxPasses) (edit : Edit)
      (offered : firstEdit? analyzer session.text (analyzer.analyze session.text) = some edit)
      (idle : isIdle edit session.text = true)
      (ends : fixLoop analyzer maxPasses tally session =
        ({ tally with passes := tally.passes + 1, converged := true },session.evaluate analyzer))
  | round (within : tally.passes < maxPasses) (edit : Edit) (next : List Char)
      (offered : firstEdit? analyzer session.text (analyzer.analyze session.text) = some edit)
      (made : edit.apply session.text = .ok next) (changed : next ≠ session.text)
      (continues : fixLoop analyzer maxPasses tally session = fixLoop analyzer maxPasses
        { tally with applied := tally.applied + 1, passes := tally.passes + 1 } { text := next })

theorem fixLoop_turn (maxPasses : Nat) (tally : Tally) (session : Session) :
    Turn analyzer maxPasses tally session := by
  by_cases reached : maxPasses ≤ tally.passes
  · exact .limit reached (by rw [fixLoop,if_pos reached])
  · have within := Nat.lt_of_not_le reached
    have next : (session.evaluate analyzer).nextEdit? analyzer =
        firstEdit? analyzer session.text (analyzer.analyze session.text) := rfl
    cases offered : firstEdit? analyzer session.text (analyzer.analyze session.text) with
    | none =>
      rw [offered] at next
      exact .nothing within offered (by rw [fixLoop,if_neg reached,next])
    | some edit =>
      rw [offered] at next
      cases idle : isIdle edit session.text with
      | true =>
        refine .idle within edit offered idle ?_
        rw [fixLoop,if_neg reached,next]
        exact if_pos idle
      | false =>
        obtain ⟨text,made,changed⟩ := isIdle_eq_false_iff.mp idle
        refine .round within edit text offered made changed ?_
        have busy : ¬isIdle edit (session.evaluate analyzer).text = true := by simp [idle]
        have ran : (commit edit).run (session.evaluate analyzer) = (.ok (),{ text }) := by
          rw [commit_run,text_evaluate,made]
        rw [fixLoop,if_neg reached,next]
        dsimp only
        rw [if_neg busy,ran]

/-- The edits of some rounds, each the first that the report on the text before it offers, and each with
an effect. -/
inductive Rounds : List Char → List Edit → List Char → Prop
  | rest (text : List Char) : Rounds text [] text
  | round {text next last : List Char} {edit : Edit} {edits : List Edit}
      (offered : firstEdit? analyzer text (analyzer.analyze text) = some edit)
      (made : edit.apply text = .ok next) (changed : next ≠ text) (further : Rounds next edits last) :
      Rounds text (edit :: edits) last

/-- What the loop leaves when so many fixes were made before it. -/
structure Outcome (maxPasses : Nat) (text : List Char) (before : Nat) (left : Tally × Session) : Prop where
  evaluated : left.2.report = some (analyzer.analyze left.2.text)
  edited : ∃ edits, Rounds analyzer text edits left.2.text ∧ left.1.applied = before + edits.length
  settled : left.1.converged = true → improve? analyzer left.2.text = none ∧
    left.1.passes = left.1.applied + 1 ∧ left.1.applied < maxPasses
  limited : left.1.converged = false → left.1.passes = left.1.applied ∧ left.1.applied = maxPasses

theorem fixLoop_outcome (maxPasses : Nat) (tally : Tally) (session : Session) (running : tally.converged = false)
    (even : tally.passes = tally.applied) (within : tally.passes ≤ maxPasses) :
    Outcome analyzer maxPasses session.text tally.applied (fixLoop analyzer maxPasses tally session) := by
  have rest (room : tally.passes < maxPasses) (stays : improve? analyzer session.text = none) :
      Outcome analyzer maxPasses session.text tally.applied
        ({ tally with passes := tally.passes + 1, converged := true },session.evaluate analyzer) :=
    ⟨rfl,⟨[],.rest _,rfl⟩,fun _ => ⟨stays,congrArg (· + 1) even,even ▸ room⟩,by simp⟩
  cases fixLoop_turn analyzer maxPasses tally session with
  | limit reached ends =>
    rw [ends]
    exact ⟨rfl,⟨[],.rest _,rfl⟩,by simp [running],fun _ => ⟨even,by dsimp only; omega⟩⟩
  | nothing room offered ends => exact ends ▸ rest room (improve?_of_nothing analyzer offered)
  | idle room edit offered idle ends => exact ends ▸ rest room (improve?_of_idle analyzer offered idle)
  | round room edit next offered made changed continues =>
    obtain ⟨evaluated,⟨edits,further,count⟩,settled,limited⟩ := fixLoop_outcome maxPasses
      { tally with applied := tally.applied + 1, passes := tally.passes + 1 } { text := next } running
      (congrArg (· + 1) even) room
    rw [continues]
    refine ⟨evaluated,⟨edit :: edits,.round offered made changed further,?_⟩,settled,limited⟩
    rw [count,List.length_cons]
    dsimp only
    omega
termination_by maxPasses - tally.passes

theorem fixAll_outcome (session : Session) (maxPasses : Nat) :
    ∃ tally, Outcome analyzer maxPasses session.text 0 (tally,(session.fixAll analyzer maxPasses).2) ∧
      (session.fixAll analyzer maxPasses).1 =
        { applied := tally.applied, passes := tally.passes, converged := tally.converged
          remaining := (analyzer.analyze (session.fixAll analyzer maxPasses).2.text).violations.length
          text := (session.fixAll analyzer maxPasses).2.text } := by
  have outcome := fixLoop_outcome analyzer maxPasses {} session rfl rfl (Nat.zero_le _)
  have left := outcome.evaluated
  refine ⟨(fixLoop analyzer maxPasses {} session).1,outcome,?_⟩
  rw [fixAll]
  dsimp only
  rw [left]
  rfl

theorem improve?_of_converged {session : Session} {maxPasses : Nat}
    (converged : (session.fixAll analyzer maxPasses).1.converged = true) :
    improve? analyzer (session.fixAll analyzer maxPasses).1.text = none := by
  obtain ⟨tally,outcome,same⟩ := fixAll_outcome analyzer session maxPasses
  rw [same] at converged ⊢
  exact (outcome.settled converged).1

theorem evaluate_of_fresh {session : Session} (fresh : session.report = some (analyzer.analyze session.text)) :
    session.evaluate analyzer = session := by
  rw [evaluate,← fresh]

theorem fixAll_of_improve?_none (session : Session) (limit : Nat) (some_ : 1 ≤ limit)
    (rest : improve? analyzer session.text = none) :
    session.fixAll analyzer limit =
      ({ applied := 0, passes := 1, converged := true, text := session.text
         remaining := (analyzer.analyze session.text).violations.length },session.evaluate analyzer) := by
  have ends : fixLoop analyzer limit {} session =
      ({ passes := 1, converged := true },session.evaluate analyzer) := by
    cases fixLoop_turn analyzer limit {} session with
    | limit reached => exact absurd some_ (Nat.not_le_of_lt (Nat.lt_one_iff.mpr (Nat.le_zero.mp reached)))
    | nothing _ _ ends => exact ends
    | idle _ _ _ _ ends => exact ends
    | round _ edit next offered made changed =>
      rw [(improve?_eq_some_iff analyzer).mpr ⟨edit,offered,made,changed⟩] at rest
      contradiction
  rw [fixAll,ends]
  rfl

/-- Mending ends in a consistent state, whatever the rules, the filter and the limit: the report is on the text of
the session, which is left evaluated; the counters tell apart whether mending came to rest or was stopped; the
last text comes from the first by that many edits; and where mending came to rest, mending again does
nothing. -/
theorem fixAll_consistent (session : Session) (maxPasses : Nat) :
    let report := (session.fixAll analyzer maxPasses).1
    let after := (session.fixAll analyzer maxPasses).2
    (report.text = after.text ∧ after.report = some (analyzer.analyze after.text) ∧
      report.remaining = (analyzer.analyze after.text).violations.length) ∧
    (report.applied ≤ report.passes ∧ report.passes ≤ maxPasses) ∧
    (report.converged = true → report.passes = report.applied + 1) ∧
    (report.converged = false → report.applied = maxPasses ∧ report.passes = maxPasses) ∧
    (∃ edits, edits.length = report.applied ∧ Rounds analyzer session.text edits after.text) ∧
    (report.converged = true → ∀ limit, 1 ≤ limit →
      (after.fixAll analyzer limit).1 = { report with applied := 0, passes := 1 } ∧
        (after.fixAll analyzer limit).2 = after) := by
  intro report after
  obtain ⟨tally,⟨evaluated,⟨edits,edited,count⟩,settled,limited⟩,same⟩ := fixAll_outcome analyzer session maxPasses
  have given : report = _ := same
  rw [Nat.zero_add] at count
  refine ⟨⟨by rw [given],evaluated,by rw [given]⟩,?_,fun converged => ?_,fun stopped => ?_,
    ⟨edits,by rw [given]; exact count.symm,edited⟩,fun converged limit some_ => ?_⟩
  · rw [given]
    cases stopped : tally.converged with
    | true =>
      obtain ⟨_,passes,within⟩ := settled stopped
      dsimp only at passes within ⊢
      omega
    | false =>
      obtain ⟨passes,reached⟩ := limited stopped
      dsimp only at passes reached ⊢
      omega
  · rw [given] at converged ⊢
    exact (settled converged).2.1
  · rw [given] at stopped ⊢
    obtain ⟨passes,reached⟩ := limited stopped
    exact ⟨reached,passes.trans reached⟩
  · rw [given] at converged ⊢
    rw [fixAll_of_improve?_none analyzer after limit some_ (settled converged).1]
    dsimp only at converged
    exact ⟨by rw [converged],evaluate_of_fresh analyzer evaluated⟩

def improveWithin (text : List Char) (made : Nat) : Nat → FixReport
  | 0 =>
    { applied := made, passes := made, converged := false, text
      remaining := (analyzer.analyze text).violations.length }
  | rounds + 1 =>
    match improve? analyzer text with
    | some next => improveWithin next (made + 1) rounds
    | none =>
      { applied := made, passes := made + 1, converged := true, text
        remaining := (analyzer.analyze text).violations.length }

theorem remaining_improveWithin (text : List Char) (made rounds : Nat) :
    (improveWithin analyzer text made rounds).remaining =
      (analyzer.analyze (improveWithin analyzer text made rounds).text).violations.length := by
  induction rounds generalizing text made with
  | zero => rfl
  | succ rounds ih =>
    rw [improveWithin]
    cases improve? analyzer text with
    | none => rfl
    | some next => exact ih next (made + 1)

def leftBy (report : FixReport) : Tally × Session :=
  ({ applied := report.applied, passes := report.passes, converged := report.converged },
    { text := report.text, report := some (analyzer.analyze report.text) })

theorem fixLoop_eq (session : Session) (made rounds : Nat) :
    fixLoop analyzer (made + rounds) { applied := made, passes := made } session =
      leftBy analyzer (improveWithin analyzer session.text made rounds) := by
  induction rounds generalizing session made with
  | zero =>
    cases fixLoop_turn analyzer (made + 0) { applied := made, passes := made } session with
    | limit _ ends => exact ends
    | nothing room | idle room | round room => exact absurd room (Nat.lt_irrefl made)
  | succ rounds ih =>
    have rest (stays : improve? analyzer session.text = none) :
        ({ applied := made, passes := made + 1, converged := true },session.evaluate analyzer) =
          leftBy analyzer (improveWithin analyzer session.text made (rounds + 1)) := by
      rw [improveWithin,stays]
      rfl
    cases fixLoop_turn analyzer (made + (rounds + 1)) { applied := made, passes := made } session with
    | limit reached => exact absurd reached (by dsimp only; omega)
    | nothing _ offered ends => exact ends.trans (rest (improve?_of_nothing analyzer offered))
    | idle _ edit offered idle ends => exact ends.trans (rest (improve?_of_idle analyzer offered idle))
    | round _ edit next offered applied changed continues =>
      have improved := (improve?_eq_some_iff analyzer).mpr ⟨edit,offered,applied,changed⟩
      have further := ih { text := next } (made + 1)
      rw [Nat.add_assoc,Nat.add_comm 1 rounds] at further
      rw [continues,improveWithin,improved]
      exact further

theorem fixAll_eq (session : Session) (maxPasses : Nat) :
    session.fixAll analyzer maxPasses =
      (improveWithin analyzer session.text 0 maxPasses,
        (leftBy analyzer (improveWithin analyzer session.text 0 maxPasses)).2) := by
  have ran := fixLoop_eq analyzer session 0 maxPasses
  rw [Nat.zero_add] at ran
  have remaining := remaining_improveWithin analyzer session.text 0 maxPasses
  rw [fixAll,ran,leftBy]
  dsimp only
  rw [Option.map_some,Option.getD_some,← remaining]

end AccessibleMarkup.Session
