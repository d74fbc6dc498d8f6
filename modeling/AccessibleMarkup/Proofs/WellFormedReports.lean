import AccessibleMarkup.Proofs.AttributeEdges
import AccessibleMarkup.Proofs.LinePositions
import AccessibleMarkup.Proofs.RuleIsolation

/-! Every linter that can be built reports well: all of its rules answer, the violations are sorted by
where they start, no finding is reported twice, and all places are ranges of the text as written. -/
namespace AccessibleMarkup

open Text Markup

namespace Location

/-- A location of the characters `found` of a text, with the line and the column where they start. -/
structure PointsAt (location : Location) (text before found after : List Char) : Prop where
  parts : text = before ++ (found ++ after)
  offset : location.offset = byteLength before
  length : location.length = byteLength found
  line : location.line = 1 + before.count '\n'
  column : ∃ lines last, before = lines ++ last ∧ '\n' ∉ last ∧
    (lines = [] ∨ ∃ front, lines = front ++ ['\n']) ∧ location.column = 1 + last.length

def PlacedIn (location : Location) (text : List Char) : Prop :=
  ∃ before found after, location.PointsAt text before found after

theorem ofRange_placedIn (text : List Char) (start stop : Nat) (first : Boundary text start)
    (last : Boundary text stop) (ordered : start ≤ stop) : (ofRange text start stop).PlacedIn text := by
  obtain ⟨before,rest,rfl,rfl⟩ := first
  obtain ⟨whole,after,same,rfl⟩ := last
  obtain ⟨found,rfl,rfl⟩ := append_of_byteLength_le same ordered
  have offset : min (byteLength before) (byteLength (before ++ (found ++ after))) = byteLength before := by
    grind
  obtain ⟨line,column⟩ := ofRange_between rfl offset (byteLength (before ++ found))
  obtain ⟨lines,parts,broken,ended⟩ := lineBefore_parts before
  refine ⟨before,found,after,rfl,offset,?_,?_,lines,_,parts,broken,ended,?_⟩
  · simp only [ofRange,byteLength_append]
    omega
  · rw [line,Nat.add_comm]
  · rw [column,List.length_reverse,Nat.add_comm]

end Location

/-- A violation that stands, with its labels, at ranges of whole characters of a text. -/
def Violation.PlacedIn (violation : Violation) (text : List Char) : Prop :=
  violation.location.PlacedIn text ∧ ∀ label ∈ violation.labels, label.location.PlacedIn text

/-- What two violations may not share: where they stand and what they say. -/
def Violation.finding (violation : Violation) : Nat × Nat × String :=
  (violation.location.offset,violation.location.length,violation.message)

/-- A report on a text that can be relied on. -/
structure Report.WellFormed (report : Report) (text : List Char) : Prop where
  answered : report.faultedRules = []
  sorted : report.violations.Pairwise fun first second => first.location.offset ≤ second.location.offset
  distinct : report.violations.Pairwise fun first second =>
    ¬ (first.location.offset = second.location.offset ∧ first.location.length = second.location.length ∧
      first.message = second.message)
  placed : ∀ violation ∈ report.violations, violation.PlacedIn text

theorem Document.IsPlace.placedIn {source : List Char} {filter : Filter} {location : Location}
    (place : (Document.read source filter).IsPlace location) : location.PlacedIn source := by
  obtain ⟨element,member,rfl | ⟨attr,own,rfl⟩⟩ := place
  · obtain ⟨first,last⟩ := Element.boundary_tag member
    exact Location.ofRange_placedIn source _ _ first last (Nat.le_of_lt (Element.openStop_le member).1)
  · obtain ⟨first,last⟩ := Element.boundary_attribute member own
    exact Location.ofRange_placedIn source _ _ first last (Element.attribute_place member own).2.1

theorem Document.Locates.placedIn {source : List Char} {filter : Filter} {violation : Violation}
    (located : (Document.read source filter).Locates violation) : violation.PlacedIn source :=
  ⟨located.1.placedIn,fun label member => (located.2 label member).placedIn⟩

namespace Report

theorem clampTo_of_inside {length : Nat} {violation : Violation}
    (inside : violation.location.offset + violation.location.length ≤ length) :
    clampTo length violation = violation := by
  have first : min violation.location.offset length = violation.location.offset := by omega
  have last : min violation.location.length (length - violation.location.offset) = violation.location.length := by
    omega
  simp only [clampTo,first,last]

theorem clampTo_eq {text : List Char} {violation : Violation} (placed : violation.PlacedIn text) :
    clampTo (byteLength text) violation = violation := by
  obtain ⟨⟨before,found,after,points⟩,_⟩ := placed
  obtain ⟨parts,offset,length,_,_⟩ := points
  have sizes : byteLength text = byteLength before + (byteLength found + byteLength after) := by
    rw [parts,byteLength_append,byteLength_append]
  exact clampTo_of_inside (by omega)

theorem placedIn_addFinding {text : List Char} {kept : List Violation} {violation : Violation}
    (placed : ∀ known ∈ kept, known.PlacedIn text) (new : violation.PlacedIn text) :
    ∀ found ∈ addFinding kept violation, found.PlacedIn text := by
  intro found member
  unfold addFinding at member
  split_ifs at member
  · obtain ⟨known,old,rfl⟩ := List.mem_map.mp member
    split_ifs
    · exact placed known old
    · exact placed known old
  · rcases List.mem_append.mp member with old | last
    · exact placed found old
    · rwa [List.mem_singleton.mp last]

theorem sameFinding_iff (left right : Violation) :
    sameFinding left right = true ↔ left.finding = right.finding := by
  simp [sameFinding,Violation.finding,and_assoc]

theorem sameFinding_eq (left right : Violation) :
    sameFinding left right = decide (right.finding = left.finding) := by
  rw [Bool.eq_iff_iff,sameFinding_iff,decide_eq_true_iff,eq_comm]

theorem any_sameFinding_iff (kept : List Violation) (violation : Violation) :
    kept.any (sameFinding violation) = true ↔ violation.finding ∈ kept.map Violation.finding := by
  rw [List.any_eq_true,List.mem_map]
  exact exists_congr fun found => and_congr_right fun _ => (sameFinding_iff violation found).trans eq_comm

theorem map_finding_addFinding (kept : List Violation) (violation : Violation) :
    (addFinding kept violation).map Violation.finding =
      if violation.finding ∈ kept.map Violation.finding then kept.map Violation.finding
      else kept.map Violation.finding ++ [violation.finding] := by
  unfold addFinding
  by_cases known : violation.finding ∈ kept.map Violation.finding
  · have same : Violation.finding ∘ (fun found => if sameFinding violation found then
        mergeSuggestions found violation.suggestions else found) = Violation.finding := by
      funext found
      simp only [Function.comp_apply]
      split_ifs <;> rfl
    rw [if_pos known,if_pos ((any_sameFinding_iff kept violation).mpr known),List.map_map,same]
  · rw [if_neg known,if_neg (mt (any_sameFinding_iff kept violation).mp known),List.map_append,List.map_singleton]

theorem nodup_addFinding {kept : List Violation} (distinct : (kept.map Violation.finding).Nodup)
    (violation : Violation) : ((addFinding kept violation).map Violation.finding).Nodup := by
  rw [map_finding_addFinding]
  split_ifs with known
  · exact distinct
  · refine List.nodup_append.mpr ⟨distinct,by simp,?_⟩
    rintro finding old _ new rfl
    exact known (List.mem_singleton.mp new ▸ old)

theorem placedIn_foldl_addFinding {text : List Char} (added kept : List Violation)
    (placed : ∀ violation ∈ kept ++ added, violation.PlacedIn text) :
    ∀ violation ∈ added.foldl addFinding kept, violation.PlacedIn text := by
  induction added generalizing kept with
  | nil => simpa using placed
  | cons violation rest ih =>
    have old : ∀ found ∈ addFinding kept violation, found.PlacedIn text :=
      placedIn_addFinding (fun known member => placed known (by simp [member])) (placed violation (by simp))
    refine ih _ fun found member => ?_
    rcases List.mem_append.mp member with merged | further
    · exact old found merged
    · exact placed found (by simp [further])

theorem nodup_foldl_addFinding (added kept : List Violation) (distinct : (kept.map Violation.finding).Nodup) :
    ((added.foldl addFinding kept).map Violation.finding).Nodup := by
  induction added generalizing kept with
  | nil => exact distinct
  | cons violation rest ih => exact ih _ (nodup_addFinding distinct violation)

theorem nodup_collect (length : Nat) (violations : List Violation) :
    ((collect length violations).map Violation.finding).Nodup := by
  have order := List.mergeSort_perm ((violations.map (clampTo length)).foldl addFinding [])
    fun left right => left.location.offset ≤ right.location.offset
  exact ((order.map Violation.finding).nodup_iff).mpr (nodup_foldl_addFinding _ [] List.nodup_nil)

theorem sorted_collect (length : Nat) (found : List Violation) :
    (collect length found).Pairwise fun first second => first.location.offset ≤ second.location.offset := by
  have sorted := @List.pairwise_mergeSort Violation
    (fun left right => left.location.offset ≤ right.location.offset)
    (fun first second third => by simpa using Nat.le_trans)
    (fun first second => by simpa using Nat.le_total _ _)
    ((found.map (clampTo length)).foldl addFinding [])
  exact sorted.imp of_decide_eq_true

theorem collect_wellFormed {text : List Char} (violations : List Violation)
    (placed : ∀ violation ∈ violations, violation.PlacedIn text) (checked : Nat) :
    ({ violations := collect (byteLength text) violations, filesChecked := checked } : Report).WellFormed
      text := by
  have unmoved : violations.map (clampTo (byteLength text)) = violations := by
    have same := List.map_congr_left fun violation member => clampTo_eq (placed violation member)
    exact same.trans (List.map_id' violations)
  refine ⟨rfl,sorted_collect _ violations,?_,fun violation member => ?_⟩
  · refine (List.pairwise_map.mp (nodup_collect (byteLength text) violations)).imp fun different same => different ?_
    simp only [Violation.finding,same]
  · rw [collect,unmoved,List.mem_mergeSort] at member
    exact placedIn_foldl_addFinding violations [] (by simpa using placed) violation member

end Report

namespace Analyzer

/-- Every rule in use has an answer about the document, and finds what stands in the text. -/
def Answers (analyzer : Analyzer) (doc : Document) (text : List Char) : Prop :=
  ∀ rule ∈ analyzer.enabledRules, ∃ found, analyzer.run? doc rule = some found ∧
    ∀ violation ∈ found, violation.PlacedIn text

variable {analyzer : Analyzer} {doc : Document} {text : List Char}

theorem answers_of_builtIn (builtIn : ∀ rule ∈ analyzer.registry.rules, ∃ settings, rule ∈ Rules.catalogue settings)
    (filter : Filter) (text : List Char) : analyzer.Answers (Document.read text filter) text := by
  have linked := Document.read_linked text filter
  intro rule enabled
  obtain ⟨settings,listed⟩ := builtIn rule (List.mem_filter.mp enabled).1
  obtain ⟨found,checked⟩ := Rules.faultless linked listed ((analyzer.config.block? rule.name).getD {})
  have placed : ∀ violation ∈ found, violation.PlacedIn text := by
    intro violation member
    have reported := Rules.reports_of_catalogue settings _ linked rule listed _ violation (by rwa [checked])
    exact (reported.located linked).placedIn
  rw [run?,checked,Option.map_some]
  refine ⟨_,rfl,fun violation member => ?_⟩
  split at member
  · obtain ⟨original,known,rfl⟩ := List.mem_map.mp member
    exact placed original known
  · exact placed violation member

theorem Answers.faultedRules_eq (answers : analyzer.Answers doc text) : faultedRules (analyzer.outcomes doc) = [] := by
  rw [faultedRules,List.map_eq_nil_iff,List.filter_eq_nil_iff]
  intro outcome ran
  obtain ⟨rule,enabled,rfl⟩ := List.mem_map.mp ran
  obtain ⟨found,answered,_⟩ := answers rule enabled
  simp [answered]

/-- What the allow directives leave of a violation stands where the violation did. -/
theorem placedIn_of_allow? {directives : AllowDirectives} {rule : Rule} {violation left : Violation}
    (placed : violation.PlacedIn text) (allowed : allow? directives rule violation = some left) :
    left.PlacedIn text := by
  rcases allow?_cases allowed with rfl | rfl
  · exact placed
  · exact ⟨placed.1,by simp [missingReason]⟩

theorem Answers.placed (answers : analyzer.Answers doc text) (directives : AllowDirectives) :
    ∀ violation ∈ (analyzer.outcomes doc).flatMap (contribution directives), violation.PlacedIn text := by
  intro violation member
  obtain ⟨outcome,ran,contributed⟩ := List.mem_flatMap.mp member
  obtain ⟨rule,enabled,rfl⟩ := List.mem_map.mp ran
  obtain ⟨found,answered,inside⟩ := answers rule enabled
  obtain ⟨reported,known,allowed⟩ := List.mem_filterMap.mp contributed
  rw [answered,Option.getD_some] at known
  exact placedIn_of_allow? (inside reported known) allowed

theorem analyze_wellFormed (builtIn : ∀ rule ∈ analyzer.registry.rules, ∃ settings, rule ∈ Rules.catalogue settings)
    (filter : Filter) (filtered : analyzer.filter = filter) (text : List Char) :
    (analyzer.analyze text).WellFormed text := by
  have answers := answers_of_builtIn builtIn filter text
  have report : analyzer.analyze text =
      { violations := Report.collect (byteLength text)
          ((analyzer.outcomes (Document.read text filter)).flatMap
            (contribution (analyzer.directives (Document.read text filter))))
        filesChecked := 1 } := by
    rw [analyze,filtered,evaluate,answers.faultedRules_eq]
    rfl
  rw [report]
  exact Report.collect_wellFormed _ (answers.placed _) 1

end Analyzer

theorem Registry.rules_ofRules (rules : List Rule) (registry : Registry)
    (made : Registry.ofRules rules = .ok registry) : registry.rules = rules := by
  rw [((Registry.ofRules_eq_ok rules registry).mp made).1]

theorem LinterRequest.build_eq_ok (request : LinterRequest) (linter : Linter) :
    request.build = .ok linter ↔ ∃ preset failOn registry, request.preset? = .ok preset ∧
      request.failOn? = .ok failOn ∧ checkNames (request.config.rules.map (·.1)) = .ok () ∧
      checkNames request.only = .ok () ∧ Registry.ofRules (request.rules preset) = .ok registry ∧
      linter = { analyzer := Analyzer.ofRegistry registry request.config, failOn } := by
  have bound {α β : Type} (first : Except LoadError α) (next : α → Except LoadError β) (result : β) :
      first >>= next = .ok result ↔ ∃ value, first = .ok value ∧ next value = .ok result := by
    cases first <;> simp [bind,Except.bind]
  have mapped (rules : List Rule) (registry : Registry) :
      (Registry.ofRules rules).mapError LoadError.duplicateRule = .ok registry ↔
        Registry.ofRules rules = .ok registry := by
    cases Registry.ofRules rules <;> simp [Except.mapError]
  simp only [build,bound,mapped,pure,Except.pure,Except.ok.injEq]
  constructor
  · rintro ⟨preset,given,failOn,threshold,_,blocks,_,names,registry,made,rfl⟩
    exact ⟨preset,failOn,registry,given,threshold,blocks,names,made,rfl⟩
  · rintro ⟨preset,failOn,registry,given,threshold,blocks,names,made,rfl⟩
    exact ⟨preset,given,failOn,threshold,(),blocks,(),names,registry,made,rfl⟩

theorem LinterRequest.builtIn (request : LinterRequest) (linter : Linter)
    (built : request.build = .ok linter) : ∀ rule ∈ linter.analyzer.registry.rules, rule ∈ Rules.all := by
  obtain ⟨preset,failOn,registry,_,_,_,_,made,rfl⟩ := (request.build_eq_ok linter).mp built
  intro rule listed
  have same : registry.rules = request.rules preset := Registry.rules_ofRules _ registry made
  rw [Analyzer.ofRegistry,same,LinterRequest.rules] at listed
  split_ifs at listed
  · exact (List.mem_filter.mp listed).1
  · exact (List.mem_filter.mp listed).1

theorem LinterRequest.filter_eq (request : LinterRequest) (linter : Linter) (built : request.build = .ok linter) :
    linter.analyzer.filter = request.config.filter.filter := by
  obtain ⟨_,_,_,_,_,_,_,_,rfl⟩ := (request.build_eq_ok linter).mp built
  rfl

/-- Every report of a linter that can be built is well formed, and no rule, be it in use or not, has a fault on the
document that is reported on, whatever its block says. -/
theorem lint_wellFormed (request : LinterRequest) (linter : Linter) (built : request.build = .ok linter)
    (text : List Char) :
    (linter.lint text).WellFormed text ∧
      ∀ rule ∈ Rules.all, ∀ block, ∃ found,
        rule.check block (Document.read text linter.analyzer.filter) = some found :=
  ⟨Analyzer.analyze_wellFormed (fun rule listed => ⟨{},request.builtIn linter built rule listed⟩)
      request.config.filter.filter (request.filter_eq linter built) text,
    fun _ listed block => Rules.faultless (Document.read_linked text linter.analyzer.filter) listed block⟩

theorem lint_wellFormed_strict :
    ∃ linter, LinterRequest.build { preset := some "strict" } = .ok linter ∧
      ((linter.lint "\x7b% é %\x7d\n<b id=a ñ=x></b><b ñ=x id=a></b>".toList).violations.map fun violation =>
        (violation.location,violation.labels.map (·.location))) =
          [(⟨none,2,24,34,4⟩,[⟨none,2,4,12,4⟩])] ∧
      (linter.lint "\x7b% é %\x7d\n<b id=a ñ=x></b><b ñ=x id=a></b>".toList).WellFormed
        "\x7b% é %\x7d\n<b id=a ñ=x></b><b ñ=x id=a></b>".toList := by
  have built : LinterRequest.build { preset := some "strict" } =
      .ok { analyzer := Analyzer.ofRegistry ⟨Preset.strict.rules⟩ {}, failOn := .error } := rfl
  exact ⟨_,built,by decide +kernel,(lint_wellFormed _ _ built _).1⟩

end AccessibleMarkup
