import AccessibleMarkup.Proofs.CollectedFindings
import AccessibleMarkup.Proofs.ElementRenaming

/-! Analyzers with a single rule, without a filter, and with no exceptions allowed: their reports hold what the
rule finds. -/
namespace AccessibleMarkup

open Text

namespace Report

theorem offers_addFinding (kept : List Violation) (violation : Violation) (offset : Nat) (fix : Fix)
    (offered : Offers kept offset fix ∨ Offers [violation] offset fix) :
    Offers (addFinding kept violation) offset fix := by
  unfold addFinding
  split_ifs with known
  · rcases offered with ⟨found,member,fixes,place⟩ | ⟨found,member,fixes,place⟩
    · refine ⟨_,List.mem_map_of_mem member,?_,?_⟩
      · split_ifs
        · obtain ⟨suggestion,offered,suggested⟩ := (mem_fixes _ _).mp fixes
          exact (mem_fixes _ _).mpr ⟨suggestion,(mem_mergeSuggestions found _ _).mpr (Or.inl offered),suggested⟩
        · exact fixes
      · split_ifs <;> exact place
    · obtain rfl := List.mem_singleton.mp member
      obtain ⟨other,present,same⟩ := List.any_eq_true.mp known
      refine ⟨_,List.mem_map_of_mem present,?_,?_⟩
      · obtain ⟨suggestion,offered,suggested⟩ := (mem_fixes _ _).mp fixes
        rw [if_pos same]
        exact (mem_fixes _ _).mpr ⟨suggestion,(mem_mergeSuggestions other _ _).mpr (Or.inr offered),suggested⟩
      · rw [if_pos same]
        simp only [sameFinding,Bool.and_eq_true,beq_iff_eq] at same
        exact same.1.1.symm.trans place
  · rcases offered with ⟨found,member,rest⟩ | ⟨found,member,rest⟩
    · exact ⟨found,List.mem_append_left _ member,rest⟩
    · exact ⟨found,List.mem_append_right _ member,rest⟩

theorem offers_collect_iff (length : Nat) (found : List Violation) (offset : Nat) (fix : Fix) :
    Offers (collect length found) offset fix ↔
      ∃ violation ∈ found, fix ∈ violation.fixes ∧ min violation.location.offset length = offset := by
  refine ⟨collect_offers length found offset fix,fun ⟨violation,member,fixes,place⟩ => ?_⟩
  have merged (kept added : List Violation) (offered : Offers kept offset fix ∨ Offers added offset fix) :
      Offers (added.foldl addFinding kept) offset fix := by
    induction added generalizing kept with
    | nil => exact offered.resolve_right fun ⟨_,nothing,_⟩ => List.not_mem_nil nothing
    | cons violation rest ih =>
      refine ih _ ?_
      rcases offered with old | ⟨new,member,more⟩
      · exact Or.inl (offers_addFinding kept violation offset fix (Or.inl old))
      · rcases List.mem_cons.mp member with rfl | later
        · exact Or.inl (offers_addFinding kept new offset fix (Or.inr ⟨new,List.mem_singleton_self _,more⟩))
        · exact Or.inr ⟨new,later,more⟩
  obtain ⟨found',inside,rest⟩ := merged [] (found.map (clampTo length))
    (Or.inr ⟨_,List.mem_map_of_mem member,fixes,place⟩)
  exact ⟨found',List.mem_mergeSort.mpr inside,rest⟩

theorem collect_of_rising (length : Nat) (found : List Violation)
    (placed : ∀ violation ∈ found, clampTo length violation = violation)
    (rising : found.Pairwise fun first second => first.location.offset < second.location.offset) :
    collect length found = found := by
  have distinct : (found.map Violation.finding).Nodup :=
    List.pairwise_map.mpr <| rising.imp fun before same => before.ne (congrArg Prod.fst same)
  exact collect_of_distinct placed distinct (rising.imp fun before => before.le)

end Report

theorem Document.openTagLocation_read {source : List Char} {filter : Markup.Filter} {i : Nat}
    {element : Markup.Element} (found : (Document.read source filter).elements[i]? = some element) :
    ((Document.read source filter).openTagLocation i).offset = element.start := by
  have inside := @Markup.Element.openStop_le (filter.apply source) _ (List.mem_of_getElem? found)
  rw [Markup.Filter.byteLength_apply] at inside
  rw [openTagLocation,found]
  exact Nat.min_eq_left (by change _ ≤ byteLength source; omega)

theorem Document.openTagLocation_offset {text : List Char} {i : Nat} {element : Markup.Element}
    (found : (Markup.elements text)[i]? = some element) :
    ((Document.read text).openTagLocation i).offset = element.start := openTagLocation_read found

/-- The opening tags of a document stand at different places. -/
theorem Document.openTagLocation_injective {source : List Char} {filter : Markup.Filter} {i j : Nat}
    (inside : i < (Document.read source filter).elements.length)
    (within : j < (Document.read source filter).elements.length)
    (same : (Document.read source filter).openTagLocation i = (Document.read source filter).openTagLocation j) :
    i = j := by
  have node (k : Nat) (here : k < (Document.read source filter).elements.length) :
      ∃ node, (Markup.outlineNodes (filter.apply source))[k]? = some node ∧
        ((Document.read source filter).openTagLocation k).offset = node.start := by
    have found := List.getElem?_eq_getElem here
    obtain ⟨node,present,made⟩ := Option.map_eq_some_iff.mp ((List.getElem?_map ..).symm.trans found)
    refine ⟨node,present,?_⟩
    rw [openTagLocation_read found,← made]
    rfl
  obtain ⟨first,found,start⟩ := node i inside
  obtain ⟨second,other,place⟩ := node j within
  refine (Markup.outlineNodes_forest _).index_of_start found other ?_
  rw [← start,← place,same]

namespace Analyzer

def graded (analyzer : Analyzer) (rule : Rule) (violation : Violation) : Violation :=
  { violation with severity := (analyzer.config.severity? rule.name).getD violation.severity }

def found (analyzer : Analyzer) (rule : Rule) (doc : Document) : List Violation :=
  (rule.check ((analyzer.config.block? rule.name).getD {}) doc).getD []

theorem found_of_answer {analyzer : Analyzer} {rule : Rule} {doc : Document} {found : List Violation}
    (answer : rule.check ((analyzer.config.block? rule.name).getD {}) doc = some found) :
    analyzer.found rule doc = found := by
  rw [Analyzer.found,answer]
  rfl

theorem run?_eq (analyzer : Analyzer) (doc : Document) (rule : Rule) :
    (analyzer.run? doc rule).getD [] = (analyzer.found rule doc).map (analyzer.graded rule) := by
  unfold run? found graded
  cases rule.check ((analyzer.config.block? rule.name).getD {}) doc with
  | none => rfl
  | some all => cases analyzer.config.severity? rule.name <;> simp

end Analyzer

/-- The analyzer has this rule and no other, reads the text as it is written, and allows no exceptions. -/
structure Analyzer.Runs (analyzer : Analyzer) (rule : Rule) : Prop where
  alone : analyzer.registry.rules = [rule]
  enabled : analyzer.config.isEnabled rule.name = true
  keeps : analyzer.filter = Markup.Filter.keep
  ignores : analyzer.config.analyzer.respectAllowComments = false

namespace Analyzer.Runs

variable {analyzer : Analyzer} {rule : Rule}

theorem violations_eq (runs : analyzer.Runs rule) (text : List Char) :
    (analyzer.analyze text).violations = Report.collect (byteLength text)
      ((analyzer.found rule (Document.read text)).map (analyzer.graded rule)) := by
  have rules : analyzer.enabledRules = [rule] := by
    rw [enabledRules,runs.alone]
    simp [runs.enabled]
  have directives : analyzer.directives (Document.read text) = {} := by
    rw [Analyzer.directives,runs.ignores]
    rfl
  have allowed (violation : Violation) : allow? {} rule violation = some violation := by
    simp [allow?,AllowDirectives.permitting?]
  have contributed : contribution {} (rule,analyzer.run? (Document.read text) rule) =
      (analyzer.run? (Document.read text) rule).getD [] := by
    rw [contribution]
    have kept : allow? {} rule = some := funext allowed
    rw [kept,List.filterMap_some]
  rw [analyze,runs.keeps,evaluate]
  dsimp only
  rw [directives,outcomes,rules,← run?_eq]
  simp only [List.map_singleton,List.flatMap_singleton,contributed]
  rfl

theorem offers_iff (runs : analyzer.Runs rule) (text : List Char) (offset : Nat) (fix : Fix) :
    Report.Offers (analyzer.analyze text).violations offset fix ↔
      ∃ violation ∈ analyzer.found rule (Document.read text),
        fix ∈ violation.fixes ∧ min violation.location.offset (byteLength text) = offset := by
  rw [runs.violations_eq,Report.offers_collect_iff]
  constructor
  · rintro ⟨violation,member,rest⟩
    obtain ⟨original,known,rfl⟩ := List.mem_map.mp member
    exact ⟨original,known,rest⟩
  · rintro ⟨violation,member,rest⟩
    exact ⟨_,List.mem_map_of_mem member,rest⟩

theorem violations_of_rising (runs : analyzer.Runs rule) (text : List Char)
    (placed : ∀ violation ∈ analyzer.found rule (Document.read text), violation.PlacedIn text)
    (rising : (analyzer.found rule (Document.read text)).Pairwise fun first second =>
      first.location.offset < second.location.offset) :
    (analyzer.analyze text).violations =
      (analyzer.found rule (Document.read text)).map (analyzer.graded rule) := by
  rw [runs.violations_eq]
  refine Report.collect_of_rising _ _ (fun violation member => ?_) (List.pairwise_map.mpr rising)
  obtain ⟨original,known,rfl⟩ := List.mem_map.mp member
  have same : (analyzer.graded rule original).PlacedIn text := placed original known
  exact Report.clampTo_eq same

end Analyzer.Runs

theorem Analyzer.violations_of_disabled {analyzer : Analyzer} {rule : Rule} (alone : analyzer.registry.rules = [rule])
    (disabled : analyzer.config.isEnabled rule.name = false) (text : List Char) :
    (analyzer.analyze text).violations = [] := by
  have rules : analyzer.enabledRules = [] := by
    rw [enabledRules,alone]
    simp [disabled]
  rw [analyze,evaluate]
  dsimp only
  rw [outcomes,rules]
  simp [Report.collect]

end AccessibleMarkup
