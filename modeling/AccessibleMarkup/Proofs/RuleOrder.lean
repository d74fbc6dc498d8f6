import AccessibleMarkup.Proofs.WellFormedReports
import Mathlib.Data.List.Nodup

/-! What the order of the rules decides. Whatever the order, the same findings are reported; if several
rules have the same finding, the first of them gives its severity. -/
namespace AccessibleMarkup

def Report.States (report : Report) (finding : Nat × Nat × String) (severity : Severity) : Prop :=
  ∃ violation ∈ report.violations, violation.finding = finding ∧ violation.severity = severity

instance (report : Report) (finding : Nat × Nat × String) (severity : Severity) :
    Decidable (report.States finding severity) :=
  inferInstanceAs (Decidable (∃ violation ∈ report.violations, _))

namespace Report

variable (finding : Nat × Nat × String)

def firstSeverity? (found : List Violation) : Option Severity :=
  (found.find? fun violation => violation.finding = finding).map (·.severity)

theorem firstSeverity?_append (first second : List Violation) : firstSeverity? finding (first ++ second) =
    (firstSeverity? finding first).or (firstSeverity? finding second) := by
  rw [firstSeverity?,List.find?_append,Option.map_or]
  rfl

theorem firstSeverity?_flatMap {α : Type} (items : List α) (found : α → List Violation) :
    firstSeverity? finding (items.flatMap found) = items.findSome? fun item => firstSeverity? finding (found item) := by
  rw [firstSeverity?,List.find?_flatMap,List.map_findSome?]
  rfl

theorem firstSeverity?_addFinding (kept : List Violation) (violation : Violation) :
    firstSeverity? finding (addFinding kept violation) = firstSeverity? finding (kept ++ [violation]) := by
  unfold addFinding
  split_ifs with known
  · have merged : firstSeverity? finding (kept.map fun old => if sameFinding violation old then
        mergeSuggestions old violation.suggestions else old) = firstSeverity? finding kept := by
      unfold firstSeverity?
      rw [List.find?_map,Option.map_map]
      congr 1
      · funext old
        simp only [Function.comp_apply]
        split_ifs <;> rfl
      · congr 1
        funext old
        simp only [Function.comp_apply]
        split_ifs <;> rfl
    rw [merged,firstSeverity?_append]
    cases first : firstSeverity? finding kept with
    | some severity => rfl
    | none =>
      obtain ⟨old,member,same⟩ := List.any_eq_true.mp known
      have absent := List.find?_eq_none.mp (Option.map_eq_none_iff.mp first) old member
      have other : violation.finding ≠ finding := by
        rw [(sameFinding_iff violation old).mp same]
        simpa using absent
      simp [firstSeverity?,other]
  · rfl

theorem firstSeverity?_foldl_addFinding (added kept : List Violation) :
    firstSeverity? finding (added.foldl addFinding kept) = firstSeverity? finding (kept ++ added) := by
  induction added generalizing kept with
  | nil => rw [List.foldl_nil,List.append_nil]
  | cons violation rest ih =>
    rw [List.foldl_cons,ih,firstSeverity?_append,firstSeverity?_addFinding,← firstSeverity?_append,List.append_assoc]
    rfl

theorem firstSeverity?_eq_some_iff {found : List Violation} (distinct : (found.map Violation.finding).Nodup)
    (severity : Severity) : firstSeverity? finding found = some severity ↔
      ∃ violation ∈ found, violation.finding = finding ∧ violation.severity = severity := by
  constructor
  · intro first
    obtain ⟨violation,present,named⟩ := Option.map_eq_some_iff.mp first
    have same := List.find?_some present
    exact ⟨violation,List.mem_of_find?_eq_some present,by simpa using same,named⟩
  · rintro ⟨violation,member,same,rfl⟩
    cases first : found.find? fun violation => violation.finding = finding with
    | none =>
      have absent := List.find?_eq_none.mp first violation member
      simp [same] at absent
    | some other =>
      have equal := List.find?_some first
      have inside := List.mem_of_find?_eq_some first
      have one := List.inj_on_of_nodup_map distinct inside member ((of_decide_eq_true equal).trans same.symm)
      rw [firstSeverity?,first,one]
      rfl

theorem states_collect_iff (length : Nat) (found : List Violation) (severity : Severity) :
    (∃ violation ∈ collect length found, violation.finding = finding ∧ violation.severity = severity) ↔
      firstSeverity? finding (found.map (clampTo length)) = some severity := by
  rw [← List.nil_append (found.map (clampTo length)),← firstSeverity?_foldl_addFinding,
    firstSeverity?_eq_some_iff finding (nodup_foldl_addFinding _ [] List.nodup_nil)]
  simp only [collect,List.mem_mergeSort]

end Report

open Report

namespace Analyzer

/-- The severity with which a rule states a finding, before other rules are asked. -/
def severityBy? (analyzer : Analyzer) (doc : Document) (finding : Nat × Nat × String) (rule : Rule) :
    Option Severity :=
  if analyzer.config.isEnabled rule.name then
    firstSeverity? finding
      ((contribution (analyzer.directives doc) (rule,analyzer.run? doc rule)).map (clampTo doc.length))
  else none

theorem findSome?_filter {α β : Type} (keep : α → Bool) (choose : α → Option β) (items : List α) :
    (items.filter keep).findSome? choose = items.findSome? fun item => if keep item then choose item else none := by
  induction items with
  | nil => rfl
  | cons item rest ih =>
    rw [List.filter_cons,List.findSome?_cons]
    split_ifs
    · rw [List.findSome?_cons,ih]
    · exact ih

theorem states_evaluate_iff (analyzer : Analyzer) (doc : Document) (finding : Nat × Nat × String)
    (severity : Severity) : (analyzer.evaluate doc).States finding severity ↔
      analyzer.registry.rules.findSome? (analyzer.severityBy? doc finding) = some severity := by
  refine (states_collect_iff finding doc.length _ severity).trans (Eq.congr_left ?_)
  rw [List.map_flatMap,firstSeverity?_flatMap,outcomes,List.findSome?_map,enabledRules,findSome?_filter]
  rfl

theorem states_alone_iff (analyzer : Analyzer) (doc : Document) (rule : Rule) (finding : Nat × Nat × String)
    (severity : Severity) : (evaluate { analyzer with registry := ⟨[rule]⟩ } doc).States finding severity ↔
      analyzer.severityBy? doc finding rule = some severity := by
  rw [states_evaluate_iff,List.findSome?_singleton]
  rfl

end Analyzer

theorem findSome?_eq_of_perm {α β : Type} {choose : α → Option β} {first second : List α}
    (order : first.Perm second) (agree : ∀ one ∈ first, ∀ other ∈ first, ∀ left right,
      choose one = some left → choose other = some right → left = right) :
    second.findSome? choose = first.findSome? choose := by
  cases chosen : first.findSome? choose with
  | none =>
    rw [List.findSome?_eq_none_iff] at chosen ⊢
    exact fun item member => chosen item (order.mem_iff.mpr member)
  | some value =>
    obtain ⟨item,member,found⟩ := List.exists_of_findSome?_eq_some chosen
    cases again : second.findSome? choose with
    | none =>
      rw [List.findSome?_eq_none_iff.mp again item (order.mem_iff.mp member)] at found
      contradiction
    | some other =>
      obtain ⟨later,inside,same⟩ := List.exists_of_findSome?_eq_some again
      rw [agree item member later (order.mem_iff.mpr inside) value other found same]

theorem Report.reaches_iff (report : Report) (threshold : Severity) : report.reaches threshold = true ↔
    ∃ finding severity, report.States finding severity ∧ severity.reaches threshold = true := by
  rw [reaches,List.any_eq_true]
  constructor
  · rintro ⟨violation,member,grave⟩
    exact ⟨_,_,⟨violation,member,rfl,rfl⟩,grave⟩
  · rintro ⟨finding,severity,⟨violation,member,_,rfl⟩,grave⟩
    exact ⟨violation,member,grave⟩

/-- In every order rules report the same findings, each with the severity that the first rule gives it that
reports it when alone. The severities are the same in every order exactly if no two rules report a finding
with different ones, and then the reports reach the same thresholds. -/
theorem findings_of_any_order (rules : List Rule) (distinct : rules.Pairwise Rule.Distinct) (config : Config)
    (filter : Markup.Filter) (text : List Char) :
    let report (rules : List Rule) := Analyzer.analyze ⟨⟨rules⟩,config,filter⟩ text
    let agree := ∀ first ∈ rules, ∀ second ∈ rules, ∀ finding left right,
      (report [first]).States finding left → (report [second]).States finding right → left = right
    (∀ other, rules.Perm other → Registry.ofRules other = .ok ⟨other⟩ ∧
      (∀ finding, (∃ severity, (report other).States finding severity) ↔
        ∃ severity, (report rules).States finding severity) ∧
      ∀ finding severity, (report other).States finding severity ↔ ∃ before rule after,
        other = before ++ rule :: after ∧ (report [rule]).States finding severity ∧
          ∀ earlier ∈ before, ∀ another, ¬ (report [earlier]).States finding another) ∧
    ((∀ other, rules.Perm other → ∀ finding severity,
      (report other).States finding severity ↔ (report rules).States finding severity) ↔ agree) ∧
    (agree → ∀ other, rules.Perm other → ∀ threshold,
      (report other).reaches threshold = (report rules).reaches threshold) := by
  intro report agree
  let analyzer : Analyzer := ⟨⟨rules⟩,config,filter⟩
  let judge := analyzer.severityBy? (Document.read text filter)
  have states (rules : List Rule) (finding : Nat × Nat × String) (severity : Severity) :
      (report rules).States finding severity ↔ rules.findSome? (judge finding) = some severity :=
    Analyzer.states_evaluate_iff ⟨⟨rules⟩,config,filter⟩ _ finding severity
  have alone (rule : Rule) (finding : Nat × Nat × String) (severity : Severity) :
      (report [rule]).States finding severity ↔ judge finding rule = some severity :=
    analyzer.states_alone_iff _ rule finding severity
  have kept (agreed : agree) (other : List Rule) (order : rules.Perm other) (finding : Nat × Nat × String)
      (severity : Severity) : (report other).States finding severity ↔ (report rules).States finding severity := by
    rw [states,states,findSome?_eq_of_perm order]
    intro first one second two left right chosen again
    exact agreed first one second two finding left right ((alone _ _ _).mpr chosen) ((alone _ _ _).mpr again)
  refine ⟨fun other order => ⟨?_,fun finding => ?_,fun finding severity => ?_⟩,⟨fun same => ?_,kept⟩,
    fun agreed other order threshold => ?_⟩
  · refine (Registry.ofRules_eq_ok _ _).mpr ⟨rfl,?_⟩
    exact distinct.perm order fun apart => ⟨apart.1.symm,apart.2.symm⟩
  · simp only [states,← Option.isSome_iff_exists,List.findSome?_isSome_iff,order.mem_iff]
  · rw [states,List.findSome?_eq_some_iff]
    simp only [alone,Option.eq_none_iff_forall_ne_some,ne_eq]
  · -- Each of the rules can be the first, and then its severity counts.
    have reported (rule : Rule) (member : rule ∈ rules) (finding : Nat × Nat × String) (severity : Severity)
        (judged : judge finding rule = some severity) : rules.findSome? (judge finding) = some severity := by
      obtain ⟨before,after,parts⟩ := List.append_of_mem member
      have order : rules.Perm (rule :: (before ++ after)) := parts ▸ List.perm_middle
      rw [← states,← same _ order,states,List.findSome?_cons,judged]
    intro first one second two finding left right chosen again
    rw [alone] at chosen again
    exact Option.some.inj ((reported first one finding left chosen).symm.trans
      (reported second two finding right again))
  · rw [Bool.eq_iff_iff,reaches_iff,reaches_iff]
    simp only [kept agreed other order]

theorem findings_of_any_order_overridden :
    let grave := RuleHead.withCheck { code := "T1", name := "grave" } fun head doc =>
      [head.violation (doc.location 0 3) "found"]
    let mild := RuleHead.withCheck { code := "T2", name := "mild", severity := .warning } fun head doc =>
      [head.violation (doc.location 0 3) "found" [⟨"remove it",some .remove⟩]]
    let config : Config := { rules := [("mild",{ severity := some .error })] }
    let report (rules : List Rule) := Analyzer.analyze ⟨⟨rules⟩,config,Markup.Filter.keep⟩ "<p>text</p>".toList
    [mild,grave].Pairwise Rule.Distinct ∧ (report [mild,grave]).States (0,3,"found") .error ∧
      (∀ finding severity, (report [grave,mild]).States finding severity ↔
        (report [mild,grave]).States finding severity) ∧
      ∀ threshold, (report [grave,mild]).reaches threshold = (report [mild,grave]).reaches threshold := by
  intro grave mild config report
  have distinct : [mild,grave].Pairwise Rule.Distinct := by
    simp [grave,mild,Rule.Distinct,RuleHead.withCheck]
  have orders := findings_of_any_order [mild,grave] distinct config Markup.Filter.keep "<p>text</p>".toList
  have errors : ∀ rule ∈ [mild,grave], ∀ violation ∈ (report [rule]).violations, violation.severity = .error := by
    decide +kernel
  have agree : ∀ first ∈ [mild,grave], ∀ second ∈ [mild,grave], ∀ finding left right,
      (report [first]).States finding left → (report [second]).States finding right → left = right := by
    rintro first one second two finding left right ⟨violation,inside,_,rfl⟩ ⟨later,present,_,rfl⟩
    rw [errors first one violation inside,errors second two later present]
  have order : [mild,grave].Perm [grave,mild] := List.Perm.swap grave mild []
  exact ⟨distinct,by decide +kernel,orders.2.1.mpr agree _ order,orders.2.2 agree _ order⟩

/-- The first of two rules with one finding decides whether the report has an error. -/
theorem first_rule_decides_severity :
    let mild := RuleHead.withCheck { code := "T1", name := "mild", severity := .warning } fun head doc =>
      [head.violation (doc.location 0 3) "found"]
    let grave := RuleHead.withCheck { code := "T2", name := "grave", severity := .error } fun head doc =>
      [head.violation (doc.location 0 3) "found"]
    let report (rules : List Rule) := Analyzer.analyze ⟨⟨rules⟩,{},Markup.Filter.keep⟩ "<p>".toList
    [mild,grave].Pairwise Rule.Distinct ∧ [mild,grave].Perm [grave,mild] ∧
      Registry.ofRules [mild,grave] = .ok ⟨[mild,grave]⟩ ∧ Registry.ofRules [grave,mild] = .ok ⟨[grave,mild]⟩ ∧
      (report [mild,grave]).States (0,3,"found") .warning ∧ ¬ (report [mild,grave]).States (0,3,"found") .error ∧
      (report [grave,mild]).States (0,3,"found") .error ∧ ¬ (report [grave,mild]).States (0,3,"found") .warning ∧
      (report [mild,grave]).reaches .error = false ∧ (report [grave,mild]).reaches .error = true := by
  intro mild grave report
  have distinct : [mild,grave].Pairwise Rule.Distinct := by
    simp [mild,grave,Rule.Distinct,RuleHead.withCheck]
  refine ⟨distinct,List.Perm.swap grave mild [],rfl,rfl,?_⟩
  decide +kernel

end AccessibleMarkup
