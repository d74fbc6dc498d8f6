import AccessibleMarkup.Proofs.RuleBlocks

/-! Which rule of a registry a text calls. A registry takes a rule unless its name or its code is taken, spelled the
same; but a text calls a rule by its name, or by its code in any case. So the first rule that answers to a text need
not be the one that was registered under it, and a rule can stand behind another one that takes its calls. -/
namespace AccessibleMarkup

open Text

namespace Registry

/-- The registry after a call that offers a rule to it. If the rule is refused, the registry is what it was. -/
def offer (registry : Registry) (rule : Rule) : Registry :=
  match registry.register rule with
  | .ok larger => larger
  | .error _ => registry

/-- The registry after a sequence of calls. -/
def ofCalls (calls : List Rule) : Registry := calls.foldl offer {}

variable {registry : Registry} {rule : Rule} {before after : List Rule} {text : String}

theorem register_eq_error_iff : (∃ refused, registry.register rule = .error refused) ↔
    ∃ known ∈ registry.rules, ¬ known.Distinct rule := by
  have free := registry.conflict?_eq_none rule
  rw [register]
  cases conflict : registry.conflict? rule with
  | none => simpa using free.mp conflict
  | some known =>
    rw [conflict] at free
    simpa using free

theorem register_of_distinct (distinct : ∀ known ∈ registry.rules, known.Distinct rule) :
    registry.register rule = .ok ⟨registry.rules ++ [rule]⟩ := by
  rw [register,(registry.conflict?_eq_none rule).mpr distinct]

theorem offer_of_error {refused : DuplicateRule} (error : registry.register rule = .error refused) :
    registry.offer rule = registry := by
  rw [offer,error]

theorem offer_cases (registry : Registry) (rule : Rule) :
    (registry.offer rule = registry ∧ ∃ known ∈ registry.rules, ¬ known.Distinct rule) ∨
      registry.offer rule = ⟨registry.rules ++ [rule]⟩ ∧ ∀ known ∈ registry.rules, known.Distinct rule := by
  by_cases taken : ∃ known ∈ registry.rules, ¬ known.Distinct rule
  · obtain ⟨refused,error⟩ := register_eq_error_iff.mpr taken
    exact Or.inl ⟨offer_of_error error,taken⟩
  · have free : ∀ known ∈ registry.rules, known.Distinct rule := by simpa using taken
    exact Or.inr ⟨by rw [offer,register_of_distinct free],free⟩

theorem distinct_offer (distinct : registry.rules.Pairwise Rule.Distinct) (rule : Rule) :
    (registry.offer rule).rules.Pairwise Rule.Distinct := by
  rcases registry.offer_cases rule with ⟨same,_⟩ | ⟨larger,free⟩
  · rwa [same]
  · rw [larger,List.pairwise_append]
    exact ⟨distinct,List.pairwise_singleton _ _,fun known member last listed => by
      rw [List.mem_singleton.mp listed]
      exact free known member⟩

theorem distinct_ofCalls (calls : List Rule) : (ofCalls calls).rules.Pairwise Rule.Distinct := by
  have folded (calls : List Rule) (registry : Registry) (distinct : registry.rules.Pairwise Rule.Distinct) :
      (calls.foldl offer registry).rules.Pairwise Rule.Distinct := by
    induction calls generalizing registry with
    | nil => exact distinct
    | cons rule rest ih => exact ih _ (distinct_offer distinct rule)
  exact folded calls {} List.Pairwise.nil

theorem mem_foldl_offer (calls : List Rule) (member : rule ∈ registry.rules) :
    rule ∈ (calls.foldl offer registry).rules := by
  induction calls generalizing registry with
  | nil => exact member
  | cons next rest ih =>
    refine ih ?_
    rcases registry.offer_cases next with ⟨same,_⟩ | ⟨larger,_⟩
    · rwa [same]
    · rw [larger]
      exact List.mem_append_left _ member

theorem ofCalls_append (front rest : List Rule) : ofCalls (front ++ rest) = rest.foldl offer (ofCalls front) :=
  List.foldl_append ..

theorem get?_eq_some_iff (parts : registry.rules = before ++ rule :: after)
    (distinct : registry.rules.Pairwise Rule.Distinct) (called : rule.isCalled text = true) :
    registry.get? text = some rule ↔ ∀ earlier ∈ before, earlier.isCalled text = false := by
  have here : (rule :: after).find? (·.isCalled text) = some rule := List.find?_cons_of_pos called
  rw [parts,List.pairwise_append] at distinct
  rw [get?,parts,List.find?_append,here]
  cases first : before.find? (·.isCalled text) with
  | none => simpa using first
  | some earlier =>
    have member := List.mem_of_find?_eq_some first
    have answers := List.find?_some first
    constructor
    · intro same
      have equal : earlier = rule := by simpa using same
      exact absurd (congrArg (fun rule : Rule => rule.name) equal)
        (distinct.2.2 earlier member rule List.mem_cons_self).1
    · intro silent
      rw [silent earlier member] at answers
      contradiction

theorem get?_name_iff (parts : registry.rules = before ++ rule :: after)
    (distinct : registry.rules.Pairwise Rule.Distinct) : registry.get? rule.name = some rule ↔
      ∀ earlier ∈ before, sameIgnoringCase earlier.code rule.name = false := by
  rw [get?_eq_some_iff parts distinct (by simp [RuleHead.isCalled])]
  rw [parts,List.pairwise_append] at distinct
  refine forall₂_congr fun earlier member => ?_
  have other := (distinct.2.2 earlier member rule List.mem_cons_self).1
  rw [RuleHead.isCalled,beq_eq_false_iff_ne.mpr other,Bool.false_or]

/-- A rule that is called by its own code stands behind the rules that have it as a name, or in some case as a code. -/
theorem get?_code_iff (parts : registry.rules = before ++ rule :: after)
    (distinct : registry.rules.Pairwise Rule.Distinct) : registry.get? rule.code = some rule ↔
      ∀ earlier ∈ before, earlier.name ≠ rule.code ∧ sameIgnoringCase earlier.code rule.code = false := by
  rw [get?_eq_some_iff parts distinct (by simp [RuleHead.isCalled,sameIgnoringCase])]
  simp only [RuleHead.isCalled,Bool.or_eq_false_iff,beq_eq_false_iff_ne]

/-- Which calls a sequence of registrations leaves without effect, and which rules it leaves that can be called. A rule
is taken unless one before it has its name or its code, and a call that is refused could as well not have been made. Of
the rules that were taken, one answers to its own name exactly if no earlier one has this name as a code, in whatever
case, and to its own code exactly if no earlier one has it as a name, or in whatever case as a code. -/
theorem registered_rule_called_iff (calls : List Rule) :
    (∀ front rule rest, calls = front ++ rule :: rest →
      ((∀ known ∈ (ofCalls front).rules, known.Distinct rule) → rule ∈ (ofCalls calls).rules) ∧
        ∀ refused, (ofCalls front).register rule = .error refused → ofCalls calls = ofCalls (front ++ rest)) ∧
    ∀ before rule after, (ofCalls calls).rules = before ++ rule :: after →
      ((ofCalls calls).get? rule.name = some rule ↔
        ∀ earlier ∈ before, sameIgnoringCase earlier.code rule.name = false) ∧
      ((ofCalls calls).get? rule.code = some rule ↔
        ∀ earlier ∈ before, earlier.name ≠ rule.code ∧ sameIgnoringCase earlier.code rule.code = false) := by
  refine ⟨fun front rule rest split => ⟨fun free => ?_,fun refused error => ?_⟩,fun before rule after parts =>
    ⟨get?_name_iff parts (distinct_ofCalls calls),get?_code_iff parts (distinct_ofCalls calls)⟩⟩
  · rw [split,ofCalls_append,List.foldl_cons,offer,register_of_distinct free]
    exact mem_foldl_offer rest (List.mem_append_right _ (List.mem_singleton_self rule))
  · rw [split,ofCalls_append,ofCalls_append,List.foldl_cons,offer_of_error error]

theorem registered_rule_called_behind :
    let first : Rule := { code := "T1", name := "first", check := fun _ _ => some [] }
    let again : Rule := { code := "T1", name := "again", check := fun _ _ => some [] }
    let behind : Rule := { code := "t1", name := "behind", check := fun _ _ => some [] }
    let called : Rule := { code := "T2", name := "T1", check := fun _ _ => some [] }
    let registry := ofCalls [first,again,behind,called]
    registry.rules = [first,behind,called] ∧ registry = ofCalls [first,behind,called] ∧
      registry.get? behind.name = some behind ∧ registry.get? behind.code ≠ some behind ∧
      registry.get? called.name ≠ some called ∧ registry.get? called.code = some called := by
  intro first again behind called registry
  have rules : registry.rules = [first,behind,called] := rfl
  obtain ⟨offered,found⟩ := registered_rule_called_iff [first,again,behind,called]
  have second := found [first] behind [called] rules
  have third := found [first,behind] called [] rules
  have skipped := (offered [first] again [behind,called] rfl).2 ⟨"again","first"⟩ rfl
  exact ⟨rules,skipped,second.1.mpr (by decide +kernel),fun same => absurd (second.2.mp same) (by decide +kernel),
    fun same => absurd (third.1.mp same) (by decide +kernel),third.2.mpr (by decide +kernel)⟩

end Registry

namespace Rules

theorem code_in_one_case : ∀ first ∈ all, ∀ second ∈ all, first.code ≠ second.code →
    sameIgnoringCase first.code second.code = false := by
  decide +kernel

end Rules

theorem Registry.called_of_builtIn {registry : Registry} {rule : Rule}
    (known : ∀ rule ∈ registry.rules, rule ∈ Rules.all) (distinct : registry.rules.Pairwise Rule.Distinct)
    (listed : rule ∈ registry.rules) :
    registry.get? rule.name = some rule ∧ registry.get? rule.code = some rule := by
  have this := known rule listed
  obtain ⟨before,after,parts⟩ := List.append_of_mem listed
  have first {earlier : Rule} (member : earlier ∈ before) : earlier ∈ Rules.all := by
    refine known earlier ?_
    rw [parts]
    exact List.mem_append_left _ member
  refine ⟨(get?_name_iff parts distinct).mpr fun earlier member => ?_,
    (get?_code_iff parts distinct).mpr fun earlier member => ⟨fun same => ?_,?_⟩⟩
  · exact Rules.code_ne_name earlier (first member) rule this
  · have other := Rules.code_ne_name rule this earlier (first member)
    rw [same,sameIgnoringCase,beq_self_eq_true] at other
    contradiction
  · rw [parts,List.pairwise_append] at distinct
    exact Rules.code_in_one_case earlier (first member) rule this
      (distinct.2.2 earlier member rule List.mem_cons_self).2

theorem LinterRequest.rules_called (request : LinterRequest) (linter : Linter) (built : request.build = .ok linter) :
    ∀ rule ∈ linter.analyzer.registry.rules, linter.analyzer.registry.get? rule.name = some rule ∧
      linter.analyzer.registry.get? rule.code = some rule := by
  intro rule listed
  have known := request.builtIn linter built
  obtain ⟨preset,failOn,registry,_,_,_,_,made,same⟩ := (request.build_eq_ok linter).mp built
  obtain ⟨rules,distinct⟩ := (Registry.ofRules_eq_ok _ _).mp made
  have held : linter.analyzer.registry = ⟨request.rules preset⟩ := by rw [same,rules]; rfl
  rw [held] at known listed ⊢
  exact Registry.called_of_builtIn known distinct listed

end AccessibleMarkup
