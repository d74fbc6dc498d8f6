import AccessibleMarkup.Proofs.ReportedViolations
import AccessibleMarkup.Proofs.WellFormedReports

/-! What the block of a rule does. A linter is built when every block goes by the name or the code of a
rule, but only the name is looked up. So a block under the name does what it says, and a block under the
code is accepted without any effect. -/
namespace AccessibleMarkup

open Text

namespace Config

theorem block?_of_alone (config : Config) (name : String) (block : RuleBlock)
    (member : (name,block) ∈ config.rules)
    (alone : ∀ other ∈ config.rules, other.1 = name → other = (name,block)) : config.block? name = some block := by
  rw [block?]
  cases found : config.rules.lookup name with
  | none =>
    have absent := List.lookup_eq_none_iff.mp found _ member
    simp at absent
  | some other =>
    obtain ⟨before,after,parts,_⟩ := List.lookup_eq_some_iff.mp found
    have listed : (name,other) ∈ config.rules := by simp [parts]
    rw [(Prod.mk.inj (alone _ listed rfl)).2]

end Config

namespace LinterRequest

def without (request : LinterRequest) (key : String) : LinterRequest :=
  { request with
    config := { request.config with rules := request.config.rules.filter fun entry => entry.1 != key } }

theorem block?_without (request : LinterRequest) (key name : String) (other : name ≠ key) :
    (request.without key).config.block? name = request.config.block? name := by
  have kept (rules : List (String × RuleBlock)) :
      (rules.filter fun entry => entry.1 != key).lookup name = rules.lookup name := by
    induction rules with
    | nil => rfl
    | cons entry rest ih =>
      rw [List.filter_cons,List.lookup_cons]
      split_ifs with here
      · rw [List.lookup_cons,ih]
      · have missed : (name == entry.1) = false := by
          simp only [bne_iff_ne,ne_eq,Decidable.not_not] at here
          simpa [here] using other
        rw [ih,missed]
  exact kept request.config.rules

theorem checkNames_eq_ok (names : List String) :
    checkNames names = .ok () ↔ ∀ name ∈ names, Rules.isKnown name = true := by
  unfold checkNames
  cases found : names.find? fun name => !Rules.isKnown name with
  | none => simpa using found
  | some name =>
    have unknown := List.find?_some found
    have member := List.mem_of_find?_eq_some found
    simp only [reduceCtorEq,false_iff]
    intro known
    rw [known name member] at unknown
    contradiction

end LinterRequest

namespace Rules

theorem code_ne_name : ∀ first ∈ all, ∀ second ∈ all, sameIgnoringCase first.code second.name = false := by
  decide +kernel

theorem name_of_code : ∀ first ∈ all, ∀ second ∈ all, first.code = second.code → first.name = second.name := by
  decide +kernel

end Rules

/-- Of the configuration an analyzer reads the blocks of its rules, by their names, and what is said about
allow directives. -/
theorem Analyzer.analyze_congr {first second : Analyzer} (registry : first.registry = second.registry)
    (filter : first.filter = second.filter) (settings : first.config.analyzer = second.config.analyzer)
    (blocks : ∀ rule ∈ first.registry.rules, first.config.block? rule.name = second.config.block? rule.name)
    (text : List Char) : first.analyze text = second.analyze text := by
  have enabled : first.enabledRules = second.enabledRules := by
    rw [enabledRules,enabledRules,← registry]
    refine List.filter_congr fun rule listed => ?_
    rw [Config.isEnabled,Config.isEnabled,blocks rule listed]
  have outcomes (doc : Document) : first.outcomes doc = second.outcomes doc := by
    rw [Analyzer.outcomes,Analyzer.outcomes,← enabled]
    refine List.map_congr_left fun rule member => ?_
    have same := blocks rule (List.mem_filter.mp member).1
    rw [run?,run?,Config.severity?,Config.severity?,same]
  have directives (doc : Document) : first.directives doc = second.directives doc := by
    rw [Analyzer.directives,Analyzer.directives,settings]
  rw [analyze,analyze,evaluate,evaluate,filter,outcomes,directives]

namespace LinterRequest

variable {request : LinterRequest} {linter : Linter} {rule : Rule}

theorem violation_of_code (built : request.build = .ok linter) (listed : rule ∈ Rules.all) (text : List Char)
    (violation : Violation) (member : violation ∈ (linter.lint text).violations)
    (code : violation.code = rule.code) :
    request.config.isEnabled rule.name = true ∧
      ((∀ severity, request.config.severity? rule.name = some severity → violation.severity = severity) ∨
        violation.message = (Analyzer.missingReason rule violation).message ∧ violation.severity = .warning) := by
  have builtIn := request.builtIn linter built
  obtain ⟨preset,failOn,registry,_,_,_,_,_,rfl⟩ := (request.build_eq_ok linter).mp built
  obtain ⟨source,enabled,reported,inside,left,allowed,restates⟩ :=
    Analyzer.contributed_of_mem _ _ violation member
  obtain ⟨known,active⟩ := List.mem_filter.mp enabled
  obtain ⟨found,checked,rfl⟩ := Analyzer.mem_run? inside
  have signed : found.code = source.code :=
    Rules.signs_of_catalogue {} source (builtIn source known) _ _ (Document.read_linked text _) found checked
  have leftCode : left.code = source.code := by
    rcases Analyzer.allow?_cases allowed with rfl | rfl
    · exact signed
    · rfl
  have name : source.name = rule.name := by
    refine Rules.name_of_code source (builtIn source known) rule listed ?_
    rw [← code,restates.code]
    exact leftCode.symm
  refine ⟨name ▸ active,?_⟩
  rcases Analyzer.allow?_cases allowed with rfl | rfl
  · left
    intro severity set
    have chosen : (Analyzer.ofRegistry registry request.config).config.severity? source.name = some severity := by
      rw [name]
      exact set
    rw [restates.severity,Report.clampTo,chosen,Option.getD_some]
  · right
    rw [restates.message,restates.severity]
    refine ⟨?_,rfl⟩
    simp only [Analyzer.missingReason,Report.clampTo,name]

theorem lint_without (built : request.build = .ok linter) (key : String)
    (unnamed : ∀ rule ∈ Rules.all, rule.name ≠ key) :
    ∃ other, (request.without key).build = .ok other ∧ other.failOn = linter.failOn ∧
      ∀ text, other.lint text = linter.lint text := by
  have builtIn := request.builtIn linter built
  obtain ⟨preset,failOn,registry,given,threshold,blocks,names,made,rfl⟩ := (request.build_eq_ok linter).mp built
  have fewer : checkNames ((request.without key).config.rules.map (·.1)) = .ok () := by
    rw [checkNames_eq_ok] at blocks ⊢
    intro name member
    obtain ⟨entry,kept,rfl⟩ := List.mem_map.mp member
    exact blocks _ (List.mem_map_of_mem (List.mem_filter.mp kept).1)
  refine ⟨_,((request.without key).build_eq_ok _).mpr
    ⟨preset,failOn,registry,given,threshold,fewer,names,made,rfl⟩,rfl,fun text => ?_⟩
  refine @Analyzer.analyze_congr (Analyzer.ofRegistry registry (request.without key).config)
    (Analyzer.ofRegistry registry request.config) rfl rfl rfl (fun rule member => ?_) text
  exact request.block?_without key rule.name (unnamed rule (builtIn rule member))

/-- The only block that calls a rule does what it says if it goes by the name of the rule: switched off,
the rule reports nothing, and all that it reports has the severity of the block, but for the warnings about
a missing reason. A block that goes by the code does nothing. -/
theorem block_counts_by_name (built : request.build = .ok linter) (listed : rule ∈ Rules.all) (key : String)
    (block : RuleBlock) (member : (key,block) ∈ request.config.rules) (called : rule.isCalled key = true)
    (alone : ∀ other ∈ request.config.rules, rule.isCalled other.1 = true → other = (key,block)) :
    (key = rule.name → ∀ text,
      (block.enabled = some false → ∀ violation ∈ (linter.lint text).violations, violation.code ≠ rule.code) ∧
      ∀ severity, block.severity = some severity → ∀ violation ∈ (linter.lint text).violations,
        violation.code = rule.code → violation.severity = severity ∨
          violation.message = (Analyzer.missingReason rule violation).message ∧ violation.severity = .warning) ∧
    (key ≠ rule.name → ∃ other, (request.without key).build = .ok other ∧ other.failOn = linter.failOn ∧
      ∀ text, other.lint text = linter.lint text) := by
  constructor
  · rintro rfl text
    have found : request.config.block? rule.name = some block := by
      refine request.config.block?_of_alone rule.name block member fun other inside same => alone other inside ?_
      rw [same]
      exact called
    refine ⟨fun off violation reported code => ?_,fun severity set violation reported code => ?_⟩
    · have on := (violation_of_code built listed text violation reported code).1
      rw [Config.isEnabled,found,Option.bind_some,off,Option.getD_some] at on
      exact Bool.false_ne_true on
    · refine (violation_of_code built listed text violation reported code).2.imp_left fun chosen => ?_
      exact chosen severity (by rw [Config.severity?,found,Option.bind_some,set])
  · intro unnamed
    have byCode : sameIgnoringCase rule.code key = true := by
      rw [RuleHead.isCalled,Bool.or_eq_true,beq_iff_eq] at called
      exact called.resolve_left fun same => unnamed same.symm
    refine lint_without built key fun other among same => ?_
    rw [← same,Rules.code_ne_name rule listed other among] at byCode
    exact Bool.false_ne_true byCode

theorem block_counts_by_name_duplicateId :
    (∃ linter, build { config := { rules := [("duplicate-id",{ enabled := some false })] } } = .ok linter ∧
      ∀ text, ∀ violation ∈ (linter.lint text).violations, violation.code ≠ "AR004") ∧
    ∃ linter, build { config := { rules := [("ar004",{ enabled := some false })] } } = .ok linter ∧
      (∀ text, linter.lint text = Linter.standard.lint text) ∧
      (linter.lint "<b id=a></b><b id=a></b>".toList).violations.map (·.code) = ["AR004"] := by
  have listed : Rules.DuplicateId.rule .error ∈ Rules.all := by simp [Rules.all,Rules.catalogue]
  constructor
  · have built : build { config := { rules := [("duplicate-id",{ enabled := some false })] } } =
        .ok { analyzer := Analyzer.ofRegistry ⟨Preset.recommended.rules⟩
                { rules := [("duplicate-id",{ enabled := some false })] }
              failOn := .error } := rfl
    refine ⟨_,built,fun text => ?_⟩
    have counts := block_counts_by_name built listed "duplicate-id" { enabled := some false } (by simp) (by decide)
      (by simp)
    exact (counts.1 rfl text).1 rfl
  · have built : build { config := { rules := [("ar004",{ enabled := some false })] } } =
        .ok { analyzer := Analyzer.ofRegistry ⟨Preset.recommended.rules⟩
                { rules := [("ar004",{ enabled := some false })] }
              failOn := .error } := rfl
    refine ⟨_,built,?_,by decide +kernel⟩
    have counts := block_counts_by_name built listed "ar004" { enabled := some false } (by simp) (by decide) (by simp)
    obtain ⟨other,without,_,same⟩ := counts.2 (by decide)
    have standard : build {} = .ok Linter.standard := rfl
    obtain rfl := Except.ok.inj (without.symm.trans standard)
    exact fun text => (same text).symm

end LinterRequest

end AccessibleMarkup
