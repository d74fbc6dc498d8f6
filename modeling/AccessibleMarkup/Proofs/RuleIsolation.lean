import AccessibleMarkup.Proofs.ReportedViolations

/-! Rules do not get in each other's way. What an analyzer reports is what its rules report that are
switched on and have an answer; a rule that fails leaves its name in the report and nothing else, and a
rule that is switched off leaves nothing at all. -/
namespace AccessibleMarkup

/-- Two rules that can be in one registry. -/
def Rule.Distinct (first second : Rule) : Prop := first.name ≠ second.name ∧ first.code ≠ second.code

namespace Registry

theorem conflict?_eq_none (registry : Registry) (rule : Rule) :
    registry.conflict? rule = none ↔ ∀ known ∈ registry.rules, known.Distinct rule := by
  simp [conflict?,Rule.Distinct]

/-- A registry is made from rules with different names and codes, and holds them in their order. -/
theorem ofRules_eq_ok (rules : List Rule) (registry : Registry) :
    ofRules rules = .ok registry ↔ registry = ⟨rules⟩ ∧ rules.Pairwise Rule.Distinct := by
  -- The induction is on the rules, for every registry that they are added to.
  have folded (rules : List Rule) (known last : Registry) : rules.foldlM register known = .ok last ↔
      last = ⟨known.rules ++ rules⟩ ∧ rules.Pairwise Rule.Distinct ∧
        ∀ old ∈ known.rules, ∀ rule ∈ rules, old.Distinct rule := by
    induction rules generalizing known with
    | nil => simp [pure,Except.pure,eq_comm]
    | cons rule rest ih =>
      rw [List.foldlM_cons,register]
      cases conflict : known.conflict? rule with
      | some other =>
        have taken : ¬ ∀ old ∈ known.rules, old.Distinct rule := by
          rw [← conflict?_eq_none,conflict]
          simp
        refine iff_of_false (by simp [bind,Except.bind]) fun ⟨_,_,apart⟩ => taken fun old member => ?_
        exact apart old member rule List.mem_cons_self
      | none =>
        have free := (known.conflict?_eq_none rule).mp conflict
        refine (ih ⟨known.rules ++ [rule]⟩).trans ?_
        simp only [List.append_assoc,List.singleton_append,List.pairwise_cons,List.mem_append,
          List.mem_cons,List.not_mem_nil,or_false]
        constructor
        · rintro ⟨last,distinct,apart⟩
          refine ⟨last,⟨fun later member => apart rule (Or.inr rfl) later member,distinct⟩,?_⟩
          rintro old member later (rfl | further)
          · exact free old member
          · exact apart old (Or.inl member) later further
        · rintro ⟨last,⟨ahead,distinct⟩,apart⟩
          refine ⟨last,distinct,?_⟩
          rintro old (member | rfl) later further
          · exact apart old member later (Or.inr further)
          · exact ahead later further
  simpa [ofRules] using folded rules {} registry

theorem ofRules_sublist {rules some : List Rule} {registry : Registry} (made : ofRules rules = .ok registry)
    (sublist : some.Sublist rules) : ofRules some = .ok ⟨some⟩ :=
  (ofRules_eq_ok _ _).mpr ⟨rfl,((ofRules_eq_ok _ _).mp made).2.sublist sublist⟩

end Registry

def Config.answers (config : Config) (doc : Document) (rule : Rule) : Bool :=
  (rule.check ((config.block? rule.name).getD {}) doc).isSome

namespace Analyzer

variable (analyzer : Analyzer) (doc : Document)

theorem isSome_run? (rule : Rule) : (analyzer.run? doc rule).isSome = analyzer.config.answers doc rule := by
  rw [run?,Option.isSome_map,Config.answers]

theorem isNone_run? (rule : Rule) : (analyzer.run? doc rule).isNone = !analyzer.config.answers doc rule := by
  rw [← Option.not_isSome,isSome_run?]

theorem faultedRules_outcomes : faultedRules (analyzer.outcomes doc) =
    (analyzer.enabledRules.filter fun rule => !analyzer.config.answers doc rule).map (·.name) := by
  rw [faultedRules,outcomes,List.filter_map,List.map_map]
  simp only [Function.comp_def,isNone_run?]

theorem contribution_of_fails (directives : AllowDirectives) (rule : Rule)
    (fails : analyzer.config.answers doc rule = false) :
    contribution directives (rule,analyzer.run? doc rule) = [] := by
  have none : analyzer.run? doc rule = none := by
    rw [← Option.isNone_iff_eq_none,isNone_run?,fails]
    rfl
  rw [contribution,none]
  rfl

theorem flatMap_contribution_filter (directives : AllowDirectives) (keep : Rule → Bool) (rules : List Rule)
    (kept : ∀ rule ∈ rules, analyzer.config.answers doc rule = true → keep rule = true) :
    ((rules.filter keep).map fun rule => (rule,analyzer.run? doc rule)).flatMap (contribution directives) =
      (rules.map fun rule => (rule,analyzer.run? doc rule)).flatMap (contribution directives) := by
  induction rules with
  | nil => rfl
  | cons rule rest ih =>
    have later := ih fun other member => kept other (List.mem_cons_of_mem _ member)
    rw [List.filter_cons]
    split_ifs with here
    · rw [List.map_cons,List.map_cons,List.flatMap_cons,List.flatMap_cons,later]
    · have fails : analyzer.config.answers doc rule = false := by
        rw [← Bool.not_eq_true]
        exact fun answers => here (kept rule List.mem_cons_self answers)
      rw [List.map_cons,List.flatMap_cons,analyzer.contribution_of_fails doc directives rule fails,later]
      rfl

/-- The report without some of the rules, of which none is switched on and has an answer, differs only in
the names of the rules that fail. -/
theorem evaluate_filter (keep : Rule → Bool)
    (kept : ∀ rule ∈ analyzer.enabledRules, analyzer.config.answers doc rule = true → keep rule = true) :
    evaluate { analyzer with registry := analyzer.registry.filter keep } doc =
      { analyzer.evaluate doc with
        faultedRules := ((analyzer.enabledRules.filter keep).filter fun rule =>
          !analyzer.config.answers doc rule).map (·.name) } := by
  have enabled : enabledRules { analyzer with registry := analyzer.registry.filter keep } =
      analyzer.enabledRules.filter keep := by
    rw [enabledRules,enabledRules,Registry.filter,List.filter_filter,List.filter_filter]
    simp only [Bool.and_comm]
  have faulted := faultedRules_outcomes { analyzer with registry := analyzer.registry.filter keep } doc
  rw [enabled] at faulted
  have found := analyzer.flatMap_contribution_filter doc (analyzer.directives doc) keep _ kept
  rw [evaluate,evaluate,faulted,outcomes,outcomes,enabled]
  dsimp only
  rw [← found]
  rfl

end Analyzer

/-- An analyzer reports the violations that it reports with only those rules that are switched on and have
an answer, and names the rules that are switched on and have none. A rule that is switched off could as
well be left out. -/
theorem rules_isolated (rules : List Rule) (registry : Registry) (made : Registry.ofRules rules = .ok registry)
    (config : Config) (filter : Markup.Filter) (text : List Char) :
    let doc := Document.read text filter
    let report := Analyzer.analyze ⟨registry,config,filter⟩ text
    let sound := rules.filter fun rule => config.isEnabled rule.name && config.answers doc rule
    (∃ alone, Registry.ofRules sound = .ok alone ∧
      report.violations = (Analyzer.analyze ⟨alone,config,filter⟩ text).violations ∧
      (Analyzer.analyze ⟨alone,config,filter⟩ text).faultedRules = []) ∧
    report.faultedRules =
      (rules.filter fun rule => config.isEnabled rule.name && !config.answers doc rule).map (·.name) ∧
    ∀ rule ∈ rules, config.isEnabled rule.name = false →
      rule.name ∉ report.faultedRules ∧
      ∃ others, Registry.ofRules (rules.filter (·.name != rule.name)) = .ok others ∧
        Analyzer.analyze ⟨others,config,filter⟩ text = report := by
  intro doc report sound
  obtain ⟨rfl,_⟩ := (Registry.ofRules_eq_ok rules registry).mp made
  let analyzer : Analyzer := ⟨⟨rules⟩,config,filter⟩
  have faulted : report.faultedRules =
      (rules.filter fun rule => config.isEnabled rule.name && !config.answers doc rule).map (·.name) := by
    refine (analyzer.faultedRules_outcomes doc).trans ?_
    rw [Analyzer.enabledRules,List.filter_filter]
    exact congrArg _ (List.filter_congr fun rule _ => Bool.and_comm _ _)
  have on (rule : Rule) (member : rule ∈ analyzer.enabledRules) : config.isEnabled rule.name = true :=
    (List.mem_filter.mp member).2
  have restricted := analyzer.evaluate_filter doc
    (fun rule => config.isEnabled rule.name && config.answers doc rule) fun rule member answers => by
      rw [on rule member]
      exact answers
  refine ⟨⟨⟨sound⟩,Registry.ofRules_sublist made List.filter_sublist,?_,?_⟩,faulted,fun rule listed off => ⟨?_,
    ⟨rules.filter (·.name != rule.name)⟩,Registry.ofRules_sublist made List.filter_sublist,?_⟩⟩
  · exact (congrArg Report.violations restricted).symm
  · refine (congrArg Report.faultedRules restricted).trans ?_
    rw [List.map_eq_nil_iff,List.filter_eq_nil_iff]
    intro rule member
    have answers := (List.mem_filter.mp member).2
    rw [Bool.and_eq_true] at answers
    simp [analyzer,answers.2]
  · rw [faulted]
    intro named
    obtain ⟨other,member,same⟩ := List.mem_map.mp named
    have active := (List.mem_filter.mp member).2
    rw [same,off] at active
    contradiction
  · have kept (other : Rule) (member : other ∈ analyzer.enabledRules) : (other.name != rule.name) = true := by
      rw [bne_iff_ne]
      intro same
      have active := on other member
      rw [same,off] at active
      contradiction
    refine (analyzer.evaluate_filter doc (·.name != rule.name) fun other member _ => kept other member).trans ?_
    rw [List.filter_eq_self.mpr kept,← Analyzer.faultedRules_outcomes]
    rfl

theorem rules_isolated_faulty :
    let faulty : Rule := { code := "T002", name := "faulty", check := fun _ _ => none }
    let everyText := RuleHead.withCheck { code := "T003", name := "every-text" } fun head doc =>
      [head.violation (doc.location 0 1) "text"]
    let marquee := RuleHead.withCheck { code := "T001", name := "no-marquee" } fun head doc =>
      (doc.named "marquee").map fun i => head.violation (doc.openTagLocation i) "marquee is not accessible"
    let config : Config := { rules := [("every-text",{ enabled := some false })] }
    let report := Analyzer.analyze ⟨⟨[faulty,everyText,marquee]⟩,config,Markup.Filter.keep⟩ "<p><marquee>x</marquee></p>".toList
    Registry.ofRules [faulty,everyText,marquee] = .ok ⟨[faulty,everyText,marquee]⟩ ∧
      report.violations.map (·.rule) = ["no-marquee"] ∧
      report.violations =
        (Analyzer.analyze ⟨⟨[marquee]⟩,config,Markup.Filter.keep⟩ "<p><marquee>x</marquee></p>".toList).violations ∧
      report.faultedRules = ["faulty"] := by
  intro faulty everyText marquee config report
  have made : Registry.ofRules [faulty,everyText,marquee] = .ok ⟨[faulty,everyText,marquee]⟩ := rfl
  obtain ⟨⟨alone,small,same,_⟩,faulted,_⟩ :=
    rules_isolated _ _ made config Markup.Filter.keep "<p><marquee>x</marquee></p>".toList
  have only : Registry.ofRules [marquee] = .ok alone := small
  obtain rfl := ((Registry.ofRules_eq_ok _ _).mp only).1
  exact ⟨made,by decide +kernel,same,faulted⟩

end AccessibleMarkup
