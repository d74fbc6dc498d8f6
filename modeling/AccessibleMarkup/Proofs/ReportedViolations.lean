import AccessibleMarkup.Proofs.ReportPlaces

/-! Where the violations of a report come from. Each of them was found by a rule that carries its code, at
a place in the document, and collecting them changes neither. -/
namespace AccessibleMarkup

open Text Markup

/-- A violation that says what another one says. Only suggestions are merged when violations are
collected. -/
structure Violation.Restates (violation original : Violation) : Prop where
  code : violation.code = original.code
  severity : violation.severity = original.severity
  location : violation.location = original.location
  message : violation.message = original.message

theorem Violation.Restates.trans {first second third : Violation} (restates : first.Restates second)
    (further : second.Restates third) : first.Restates third :=
  ⟨restates.code.trans further.code,restates.severity.trans further.severity,
    restates.location.trans further.location,restates.message.trans further.message⟩

namespace Report

theorem mem_addFinding (kept : List Violation) (violation found : Violation)
    (member : found ∈ addFinding kept violation) :
    ∃ original ∈ kept ++ [violation], found.Restates original := by
  unfold addFinding at member
  split_ifs at member
  · obtain ⟨known,old,rfl⟩ := List.mem_map.mp member
    refine ⟨known,List.mem_append_left _ old,?_⟩
    split_ifs <;> exact ⟨rfl,rfl,rfl,rfl⟩
  · exact ⟨found,member,⟨rfl,rfl,rfl,rfl⟩⟩

theorem mem_foldl_addFinding (kept added : List Violation) (found : Violation)
    (member : found ∈ added.foldl addFinding kept) :
    ∃ original ∈ kept ++ added, found.Restates original := by
  induction added generalizing kept with
  | nil => exact ⟨found,by simpa using member,⟨rfl,rfl,rfl,rfl⟩⟩
  | cons violation rest ih =>
    obtain ⟨later,inside,same⟩ := ih _ member
    rcases List.mem_append.mp inside with merged | further
    · obtain ⟨original,before,alike⟩ := mem_addFinding kept violation later merged
      refine ⟨original,?_,same.trans alike⟩
      rw [List.append_cons]
      exact List.mem_append_left rest before
    · exact ⟨later,by simp [further],same⟩

theorem mem_collect (length : Nat) (violations : List Violation) (found : Violation)
    (member : found ∈ collect length violations) :
    ∃ original ∈ violations, found.Restates (clampTo length original) := by
  rw [collect,List.mem_mergeSort] at member
  obtain ⟨clamped,inside,same⟩ := mem_foldl_addFinding [] _ found member
  obtain ⟨original,known,rfl⟩ := List.mem_map.mp inside
  exact ⟨original,known,same⟩

end Report

theorem Document.location_range (doc : Document) (start stop : Nat) (ordered : start ≤ stop)
    (inside : stop ≤ doc.length) (violation found : Violation)
    (place : violation.location = doc.location start stop)
    (kept : found.location = (Report.clampTo doc.length violation).location) : found.range = ⟨start,stop⟩ := by
  unfold Document.length at inside kept
  simp only [Violation.range,Location.range,kept,Report.clampTo,place,Document.location,Location.ofRange,
    ByteRange.mk.injEq]
  omega

def Rule.Signs (rule : Rule) : Prop :=
  ∀ block, ∀ doc : Document, doc.Linked → ∀ violation ∈ (rule.check block doc).getD [], violation.code = rule.code

theorem Rules.signs_of_catalogue (settings : Settings) : ∀ rule ∈ catalogue settings, rule.Signs := by
  intro rule listed block doc linked violation member
  exact (reports_of_catalogue settings doc linked rule listed block violation member).code

namespace Analyzer

/-- Every violation of a report was found by a rule that is not switched off, and is what the allow
directives left of it. -/
theorem contributed_of_mem (analyzer : Analyzer) (doc : Document) (violation : Violation)
    (member : violation ∈ (analyzer.evaluate doc).violations) :
    ∃ rule ∈ analyzer.enabledRules, ∃ reported ∈ (analyzer.run? doc rule).getD [], ∃ left,
      allow? (analyzer.directives doc) rule reported = some left ∧
        violation.Restates (Report.clampTo doc.length left) := by
  obtain ⟨left,inside,same⟩ := Report.mem_collect _ _ violation member
  obtain ⟨outcome,ran,contributed⟩ := List.mem_flatMap.mp inside
  obtain ⟨rule,enabled,rfl⟩ := List.mem_map.mp ran
  obtain ⟨reported,known,allowed⟩ := List.mem_filterMap.mp contributed
  exact ⟨rule,enabled,reported,known,left,allowed,same⟩

theorem mem_evaluate (analyzer : Analyzer) (doc : Document) (linked : doc.Linked)
    (signs : ∀ rule ∈ analyzer.registry.rules, rule.Signs) (violation : Violation)
    (member : violation ∈ (analyzer.evaluate doc).violations) :
    ∃ rule ∈ analyzer.registry.rules, ∃ block, ∃ found ∈ (rule.check block doc).getD [],
      violation.code = rule.code ∧ violation.location = (Report.clampTo doc.length found).location := by
  obtain ⟨rule,enabled,reported,inside,left,allowed,restates⟩ := analyzer.contributed_of_mem doc violation member
  have listed : rule ∈ analyzer.registry.rules := (List.mem_filter.mp enabled).1
  obtain ⟨found,known,rfl⟩ := mem_run? inside
  have own := signs rule listed _ doc linked found known
  refine ⟨rule,listed,_,found,known,?_⟩
  rw [restates.code,restates.location]
  rcases allow?_cases allowed with rfl | rfl
  · exact ⟨own,rfl⟩
  · exact ⟨rfl,rfl⟩

end Analyzer

end AccessibleMarkup
