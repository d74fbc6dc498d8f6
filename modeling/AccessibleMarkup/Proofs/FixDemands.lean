import AccessibleMarkup.Linter.Basic
import AccessibleMarkup.Proofs.FaultlessRules
import AccessibleMarkup.Proofs.TabPlaces

/-! What the rules of the recommended set ask for. Every fix in a report is asked for at an element of
the document, for one of eight reasons; the main result is `asks_of_analyze`. -/
namespace AccessibleMarkup

open Markup

namespace Report

/-- Suggestions that are added one by one unless they are known keep their order; of equal ones the first is added. -/
theorem foldl_unless_known (known added : List Suggestion) : added.foldl
    (fun known suggestion => if known.contains suggestion then known else known ++ [suggestion]) known =
      known ++ (added.filter fun suggestion => !known.contains suggestion).eraseDups := by
  induction added generalizing known with
  | nil => simp
  | cons suggestion rest ih =>
    rw [List.foldl_cons,ih]
    by_cases listed : known.contains suggestion = true
    · rw [if_pos listed,List.filter_cons_of_neg (by simpa using listed)]
    · rw [if_neg listed,List.filter_cons_of_pos (by simpa using listed),List.eraseDups_cons,List.filter_filter,
        List.append_assoc,List.singleton_append]
      congr 3
      refine List.filter_congr fun other _ => ?_
      rw [List.contains_eq_mem,List.contains_eq_mem]
      by_cases same : other = suggestion
      · simp [same]
      · simp [same]

theorem mergeSuggestions_eq (kept : Violation) (suggestions : List Suggestion) :
    mergeSuggestions kept suggestions = { kept with
      suggestions := kept.suggestions ++
        (suggestions.filter fun suggestion => !kept.suggestions.contains suggestion).eraseDups } := by
  rw [mergeSuggestions,foldl_unless_known]

theorem mem_mergeSuggestions (kept : Violation) (suggestions : List Suggestion) (found : Suggestion) :
    found ∈ (mergeSuggestions kept suggestions).suggestions ↔ found ∈ kept.suggestions ∨ found ∈ suggestions := by
  rw [mergeSuggestions_eq,List.mem_append,List.mem_eraseDups,List.mem_filter,List.contains_eq_mem]
  by_cases own : found ∈ kept.suggestions
  · simp [own]
  · simp [own]

theorem mem_fixes (violation : Violation) (fix : Fix) :
    fix ∈ violation.fixes ↔ ∃ suggestion ∈ violation.suggestions, suggestion.fix = some fix := by
  rw [Violation.fixes,List.mem_filterMap]

def Offers (found : List Violation) (offset : Nat) (fix : Fix) : Prop :=
  ∃ violation ∈ found, fix ∈ violation.fixes ∧ violation.location.offset = offset

theorem addFinding_offers (kept : List Violation) (violation : Violation) (offset : Nat) (fix : Fix)
    (offered : Offers (addFinding kept violation) offset fix) :
    Offers kept offset fix ∨ Offers [violation] offset fix := by
  obtain ⟨found,member,fixes,place⟩ := offered
  unfold addFinding at member
  split_ifs at member with known
  · obtain ⟨old,kept,rfl⟩ := List.mem_map.mp member
    split_ifs at fixes place with same
    · simp only [sameFinding,Bool.and_eq_true,beq_iff_eq] at same
      obtain ⟨suggestion,offered,suggested⟩ := (mem_fixes _ _).mp fixes
      rcases (mem_mergeSuggestions old violation.suggestions suggestion).mp offered with before | new
      · exact Or.inl ⟨old,kept,(mem_fixes _ _).mpr ⟨suggestion,before,suggested⟩,place⟩
      · exact Or.inr ⟨violation,List.mem_singleton_self _,(mem_fixes _ _).mpr ⟨suggestion,new,suggested⟩,
          same.1.1.trans place⟩
    · exact Or.inl ⟨old,kept,fixes,place⟩
  · rcases List.mem_append.mp member with before | new
    · exact Or.inl ⟨found,before,fixes,place⟩
    · exact Or.inr ⟨found,new,fixes,place⟩

theorem collect_offers (length : Nat) (found : List Violation) (offset : Nat) (fix : Fix)
    (offered : Offers (collect length found) offset fix) :
    ∃ violation ∈ found, fix ∈ violation.fixes ∧ min violation.location.offset length = offset := by
  have merged (kept added : List Violation) (offered : Offers (added.foldl addFinding kept) offset fix) :
      Offers kept offset fix ∨ Offers added offset fix := by
    induction added generalizing kept with
    | nil => exact Or.inl offered
    | cons violation rest ih =>
      rcases ih _ offered with before | ⟨later,member,fixes,place⟩
      · rcases addFinding_offers kept violation offset fix before with old | ⟨new,member,fixes,place⟩
        · exact Or.inl old
        · rw [List.mem_singleton.mp member] at fixes place
          exact Or.inr ⟨violation,List.mem_cons_self,fixes,place⟩
      · exact Or.inr ⟨later,List.mem_cons_of_mem _ member,fixes,place⟩
  obtain ⟨violation,member,fixes,place⟩ := offered
  rw [collect,List.mem_mergeSort] at member
  rcases merged [] _ ⟨violation,member,fixes,place⟩ with ⟨_,nothing,_⟩ | ⟨clamped,clampedMember,fixes,place⟩
  · contradiction
  · obtain ⟨original,known,rfl⟩ := List.mem_map.mp clampedMember
    exact ⟨original,known,fixes,place⟩

end Report

namespace ReferenceIndex

theorem controls_of_mem {reference : Reference} {element : Element}
    (member : reference ∈ referencesOf reference.source element) (kind : reference.kind = .controls) :
    ∃ value, element.value? "aria-controls" = some value ∧
      reference.target ∈ ReferenceKind.controls.targets value := by
  obtain ⟨other,_,inside⟩ := List.mem_flatMap.mp member
  split at inside
  next value written =>
    obtain ⟨target,named,same⟩ := List.mem_map.mp inside
    have sameKind : other = .controls := by rw [← kind,← same]
    subst sameKind
    exact ⟨value,written,by rw [← same]; exact named⟩
  next => contradiction

end ReferenceIndex

/-- Whether the element refers to the other one by its identifier. -/
def Markup.Element.controls (element panel : Element) : Bool :=
  (element.value? "aria-controls").any fun value =>
    (panel.value? "id").any (ReferenceKind.controls.targets value).contains

theorem ReferenceIndex.Sound.controls_of_owner {elements : List Element} {index : ReferenceIndex}
    (sound : Sound elements index) {reference : Reference} {source panel : Element} {owner : Nat}
    (refers : reference ∈ referencesOf reference.source source) (kind : reference.kind = .controls)
    (owned : index.owners.lookup reference.target = some owner) (found : elements[owner]? = some panel) :
    source.controls panel = true := by
  obtain ⟨value,written,target⟩ := controls_of_mem refers kind
  obtain ⟨carrier,carried,identified⟩ := sound.owner _ _ owned
  obtain rfl := Option.some.inj (found.symm.trans carried)
  rw [Element.controls,written,(Option.filter_eq_some_iff.mp identified).1]
  simpa using target

/-- A fix that is asked for at an element of a document, with the reason. -/
inductive Asks (elements : List Element) (element : Element) : Fix → Prop
  | focus (selected : isTrue (element.value? "aria-selected") = true)
      (off : element.focusIndex? ≠ some 0) : Asks elements element (.setAttribute "tabindex" "0")
  | unfocus (other : isTrue (element.value? "aria-selected") = false)
      (on : element.inFocusOrder = true) : Asks elements element (.setAttribute "tabindex" "-1")
  | reveal (controller : Element) (member : controller ∈ elements) (controls : controller.controls element = true)
      (name : String) (active : Rules.PanelVisibility.state? controller = some (name,true))
      (hidden : element.has "hidden" = true) : Asks elements element (.removeAttribute "hidden")
  | hide (controller : Element) (member : controller ∈ elements) (controls : controller.controls element = true)
      (name : String) (idle : Rules.PanelVisibility.state? controller = some (name,false))
      (visible : element.has "hidden" = false) : Asks elements element (.addAttribute "hidden" "")
  | wrap (item : element.name = "li") : Asks elements element (.wrap "ul" [])
  | correct (attr : Attribute) (member : attr ∈ element.attributes) (legal : List String)
      (illegal : Rules.AriaAttributeValue.violated? attr = some legal) (meant : String)
      (correction : Rules.AriaAttributeValue.correction? (Text.trim attr.value) = some meant)
      (proper : legal.contains meant = true) :
      Asks elements element (.setAttribute (Text.asciiLower attr.name) meant)
  | complete (requirement : Rules.RequiredState.Requirement)
      (member : requirement ∈ Rules.RequiredState.requirements)
      (written : element.writesRole requirement.role = true)
      (absent : element.has requirement.name = false) :
      Asks elements element
        (.addAttribute requirement.name (Rules.RequiredState.startValue element requirement))
  | unmark (name : String) (marker : name = "aria-live" ∨ name = "aria-hidden")
      (present : element.has name = true) : Asks elements element (.removeAttribute name)

namespace Document

/-- A place at which a fix of an element may be anchored: its tag or one of its attributes. -/
def Anchors (doc : Document) (element : Element) (offset : Nat) : Prop :=
  ∃ start, offset = min start doc.length ∧
    (start = element.start ∨ ∃ attr ∈ element.attributes, start = attr.range.start)

def AsksFor (doc : Document) (violation : Violation) : Prop :=
  ∀ fix ∈ violation.fixes, ∃ element ∈ doc.elements,
    doc.Anchors element violation.location.offset ∧ Asks doc.elements element fix

theorem anchors_openTag (doc : Document) (i : Nat) (element : Element)
    (found : doc.elements[i]? = some element) :
    doc.Anchors element (doc.openTagLocation i).offset := by
  refine ⟨element.start,?_,Or.inl rfl⟩
  rw [openTagLocation,found]
  rfl

theorem anchors_attribute (doc : Document) (i : Nat) (element : Element) (name : String)
    (found : doc.elements[i]? = some element) :
    doc.Anchors element (doc.attributeLocation i name).offset := by
  unfold attributeLocation
  rw [found,Option.bind_some]
  split
  next attr present =>
    exact ⟨attr.range.start,rfl,Or.inr ⟨attr,List.mem_of_find?_eq_some present,rfl⟩⟩
  next absent => exact doc.anchors_openTag i element found

theorem holdsAt_some (doc : Document) (condition : Element → Bool) (i : Nat)
    (holds : doc.holdsAt condition i = true) :
    ∃ element, doc.elements[i]? = some element ∧ condition element = true := by
  rw [holdsAt,Option.any_eq_true] at holds
  exact holds

theorem asksFor_nothing (doc : Document) (violation : Violation)
    (advice : ∀ suggestion ∈ violation.suggestions, suggestion.fix = none) : doc.AsksFor violation := by
  intro fix offered
  obtain ⟨suggestion,member,same⟩ := (Report.mem_fixes _ _).mp offered
  rw [advice suggestion member] at same
  contradiction

end Document

theorem Markup.Element.has_of_value? (element : Element) (name value : String)
    (known : element.value? name = some value) : element.has name = true := by
  obtain ⟨attr,found,_⟩ := Option.map_eq_some_iff.mp known
  rw [Element.has,hasAttribute,found]
  rfl

theorem Markup.Element.has_of_isAriaHidden (element : Element) (hidden : element.isAriaHidden = true) :
    element.has "aria-hidden" = true := by
  rw [Element.isAriaHidden,isTrue,Option.any_eq_true] at hidden
  obtain ⟨value,known,_⟩ := hidden
  exact element.has_of_value? _ value known

namespace Rules

theorem TabRovingFocus.asks_of_isMisplaced {doc : Document} {tab : Nat} (misplaced : isMisplaced doc tab = true) :
    ∃ element, doc.elements[tab]? = some element ∧
      Asks doc.elements element (.setAttribute "tabindex" (placeOf doc tab)) := by
  rw [isMisplaced] at misplaced
  rw [placeOf]
  split_ifs at misplaced ⊢ with selected
  · obtain ⟨element,found,chosen⟩ := doc.holdsAt_some _ _ selected
    rw [Document.holdsAt,found] at misplaced
    exact ⟨element,found,.focus chosen (by simpa using misplaced)⟩
  · obtain ⟨element,found,focusable⟩ := doc.holdsAt_some _ _ misplaced
    rw [Document.saysTrue,Document.holdsAt,found] at selected
    exact ⟨element,found,.unfocus (Bool.eq_false_iff.mpr selected) focusable⟩

theorem TabRovingFocus.asks (head : RuleHead) (doc : Document) :
    ∀ violation ∈ check head doc, doc.AsksFor violation := by
  intro violation member fix offered
  obtain ⟨group,_,judged⟩ := List.mem_flatMap.mp member
  obtain ⟨_,tab,_,misplaced,rfl,place⟩ := (judge_fixes head group fix _).mp ⟨violation,judged,offered,rfl⟩
  obtain ⟨element,found,asks⟩ := asks_of_isMisplaced misplaced
  rw [place]
  exact ⟨element,List.mem_of_getElem? found,doc.anchors_openTag tab element found,asks⟩

theorem PanelVisibility.asks (head : RuleHead) (doc : Document) (linked : doc.Linked) :
    ∀ violation ∈ check head doc, doc.AsksFor violation := by
  intro violation member fix offered
  obtain ⟨reference,known,judged⟩ := List.mem_filterMap.mp member
  obtain ⟨known,kind⟩ := List.mem_filter.mp known
  rw [beq_iff_eq] at kind
  obtain ⟨source,sourceFound,refers⟩ := linked.index.reference reference known
  unfold judge? at judged
  simp only [Option.bind_eq_bind] at judged
  split_ifs at judged with dynamic
  · contradiction
  obtain ⟨controller,sameSource,judged⟩ := Option.bind_eq_some_iff.mp judged
  obtain rfl := Option.some.inj (sourceFound.symm.trans sameSource)
  obtain ⟨⟨name,active⟩,state,judged⟩ := Option.bind_eq_some_iff.mp judged
  obtain ⟨⟨i,panel⟩,resolved,judged⟩ := Option.bind_eq_some_iff.mp judged
  obtain ⟨owner,owned,found⟩ := Option.bind_eq_some_iff.mp resolved
  obtain ⟨element,panelFound,same⟩ := Option.map_eq_some_iff.mp found
  obtain ⟨rfl,rfl⟩ := Prod.mk.inj same
  have controls := linked.index.controls_of_owner refers kind owned panelFound
  have sourceMember := List.mem_of_getElem? sourceFound
  have panelMember := List.mem_of_getElem? panelFound
  have anchor := doc.anchors_openTag owner element panelFound
  unfold verdict? at judged
  simp only at judged
  split_ifs at judged with uncertain
  cases active with
  | true =>
    cases hidden : element.isHidden with
    | false => simp [hidden] at judged
    | true =>
      rw [hidden] at judged
      obtain rfl := Option.some.inj judged
      refine ⟨element,panelMember,anchor,?_⟩
      simp only [Violation.fixes,RuleHead.violation,showSuggestions] at offered
      split_ifs at offered with marked style
      · obtain rfl : fix = .removeAttribute "hidden" := by simpa using offered
        exact .reveal source sourceMember controls name state marked
      · simp at offered
      · simp at offered
  | false =>
    cases hidden : element.isHidden with
    | true => simp [hidden] at judged
    | false =>
      rw [hidden] at judged
      obtain rfl := Option.some.inj judged
      refine ⟨element,panelMember,anchor,?_⟩
      obtain rfl : fix = .addAttribute "hidden" "" := by
        simpa [Violation.fixes,RuleHead.violation] using offered
      refine .hide source sourceMember controls name state ?_
      simp only [Element.isHidden,Bool.or_eq_false_iff] at hidden
      exact hidden.1.1.1

theorem RequiredParent.asks (ignoreTopLevel : Bool) (head : RuleHead) (doc : Document) :
    ∀ violation ∈ check ignoreTopLevel head doc, doc.AsksFor violation := by
  intro violation member fix offered
  obtain ⟨⟨element,i⟩,entry,judged⟩ := List.mem_filterMap.mp member
  have found := doc.mem_indexed element i entry
  unfold judge? at judged
  simp only [Option.bind_eq_bind] at judged
  obtain ⟨⟨role,containers⟩,_,judged⟩ := Option.bind_eq_some_iff.mp judged
  split_ifs at judged
  obtain rfl := Option.some.inj judged
  refine ⟨element,List.mem_of_getElem? found,doc.anchors_openTag i element found,?_⟩
  simp only [report,Violation.fixes,RuleHead.violation,suggestion] at offered
  split_ifs at offered with item
  · obtain rfl : fix = .wrap "ul" [] := by simpa using offered
    rw [Bool.and_eq_true,beq_iff_eq] at item
    exact .wrap item.1
  · simp at offered

theorem AriaAttributeValue.asks (head : RuleHead) (doc : Document) :
    ∀ violation ∈ check head doc, doc.AsksFor violation := by
  intro violation member fix offered
  obtain ⟨⟨element,i⟩,entry,judged⟩ := List.mem_flatMap.mp member
  obtain ⟨attr,written,judged⟩ := List.mem_filterMap.mp judged
  have found := doc.mem_indexed element i entry
  obtain ⟨legal,illegal,judged⟩ := Option.bind_eq_some_iff.mp judged
  obtain rfl := Option.some.inj judged
  refine ⟨element,List.mem_of_getElem? found,doc.anchors_attribute i element attr.name found,?_⟩
  simp only [Violation.fixes,RuleHead.violation,suggestion] at offered
  split at offered
  next meant corrected =>
    obtain ⟨correction,proper⟩ := Option.filter_eq_some_iff.mp corrected
    obtain rfl : fix = .setAttribute (Text.asciiLower attr.name) meant := by simpa using offered
    exact .correct attr written legal illegal meant correction proper
  next other => simp at offered

theorem AriaAttributeValue.correction_words {value meant : String} (correction : correction? value = some meant) :
    meant ∈ ["true","false"] := by
  unfold correction? at correction
  split at correction <;> cases correction <;> decide

theorem RequiredState.asks (head : RuleHead) (doc : Document) :
    ∀ violation ∈ check head doc, doc.AsksFor violation := by
  intro violation member fix offered
  obtain ⟨⟨element,i⟩,entry,judged⟩ := List.mem_filterMap.mp member
  have found := doc.mem_indexed element i entry
  obtain ⟨requirement,required,judged⟩ := Option.bind_eq_some_iff.mp judged
  simp only at judged
  split_ifs at judged with present
  · contradiction
  obtain rfl := Option.some.inj judged
  refine ⟨element,List.mem_of_getElem? found,doc.anchors_openTag i element found,?_⟩
  obtain rfl : fix = .addAttribute requirement.name (startValue element requirement) := by
    simpa [Violation.fixes,RuleHead.violation] using offered
  have written := List.find?_some required
  exact .complete requirement (List.mem_of_find?_eq_some required) written (by simpa using present)

theorem LiveRegion.asks (head : RuleHead) (doc : Document) :
    ∀ violation ∈ check head doc, doc.AsksFor violation := by
  intro violation member
  obtain ⟨⟨element,i⟩,entry,judged⟩ := List.mem_flatMap.mp member
  have found := doc.mem_indexed element i entry
  have elementMember := List.mem_of_getElem? found
  rcases List.mem_append.mp judged with politeness | hidden
  · intro fix offered
    have judged := Option.mem_toList.mp politeness
    unfold judgePoliteness? at judged
    simp only [Option.bind_eq_bind] at judged
    obtain ⟨role,_,judged⟩ := Option.bind_eq_some_iff.mp judged
    obtain ⟨implied,_,judged⟩ := Option.bind_eq_some_iff.mp judged
    obtain ⟨written,spoken,judged⟩ := Option.bind_eq_some_iff.mp judged
    have present : element.has "aria-live" = true := by
      obtain ⟨value,kept,_⟩ := Option.map_eq_some_iff.mp spoken
      exact element.has_of_value? _ value (Option.filter_eq_some_iff.mp kept).1
    split_ifs at judged
    · contradiction
    obtain rfl := Option.some.inj judged
    obtain rfl : fix = .removeAttribute "aria-live" := by
      simpa [Violation.fixes,RuleHead.violation] using offered
    exact ⟨element,elementMember,doc.anchors_attribute i element "aria-live" found,
      .unmark "aria-live" (Or.inl rfl) present⟩
  · have judged := Option.mem_toList.mp hidden
    unfold judgeHidden? at judged
    split_ifs at judged with announced marked
    · obtain rfl := Option.some.inj judged
      intro fix offered
      obtain rfl : fix = .removeAttribute "aria-hidden" := by
        simpa [Violation.fixes,reportItself,RuleHead.violation] using offered
      exact ⟨element,elementMember,doc.anchors_attribute i element "aria-hidden" found,
        .unmark "aria-hidden" (Or.inr rfl) (element.has_of_isAriaHidden marked)⟩
    · obtain ⟨outer,_,rfl⟩ := Option.map_eq_some_iff.mp judged
      apply doc.asksFor_nothing
      simp [reportInside,RuleHead.violation]

theorem HiddenFocusable.asks (head : RuleHead) (doc : Document) :
    ∀ violation ∈ check head doc, doc.AsksFor violation := by
  intro violation member fix offered
  obtain ⟨⟨element,i⟩,entry,judged⟩ := List.mem_filterMap.mp member
  have found := doc.mem_indexed element i entry
  have elementMember := List.mem_of_getElem? found
  have anchor := doc.anchors_attribute i element "aria-hidden" found
  have marked (outermost : isOutermostHider doc element i = true) : element.has "aria-hidden" = true := by
    simp only [isOutermostHider,Bool.and_eq_true] at outermost
    exact element.has_of_isAriaHidden outermost.1.1
  unfold judge? at judged
  simp only at judged
  split_ifs at judged with outermost reachable known
  · obtain rfl := Option.some.inj judged
    obtain rfl : fix = .removeAttribute "aria-hidden" := by
      simpa [Violation.fixes,RuleHead.violation,reportItself,removeHiding] using offered
    exact ⟨element,elementMember,anchor,
      .unmark "aria-hidden" (Or.inr rfl) (marked (by simpa using outermost))⟩
  · obtain ⟨first,_,rfl⟩ := Option.map_eq_some_iff.mp judged
    obtain rfl : fix = .removeAttribute "aria-hidden" := by
      simpa [Violation.fixes,RuleHead.violation,removeHiding] using offered
    exact ⟨element,elementMember,anchor,
      .unmark "aria-hidden" (Or.inr rfl) (marked (by simpa using outermost))⟩

theorem TablistSelection.asks (head : RuleHead) (doc : Document) :
    ∀ violation ∈ check head doc, doc.AsksFor violation := by
  intro violation member
  obtain ⟨tablist,_,judged⟩ := List.mem_filterMap.mp member
  apply doc.asksFor_nothing
  unfold judge? verdict? at judged
  simp only at judged
  split_ifs at judged
  split at judged
  · obtain rfl := Option.some.inj judged
    simp [RuleHead.violation]
  · contradiction
  · obtain rfl := Option.some.inj judged
    simp [RuleHead.violation]

theorem AriaReference.asks (kinds : List ReferenceKind) (head : RuleHead) (doc : Document) :
    ∀ violation ∈ checkKinds kinds head doc, doc.AsksFor violation := by
  intro violation member
  obtain ⟨reference,_,rfl⟩ := List.mem_map.mp member
  apply doc.asksFor_nothing
  simp [report,RuleHead.violation]

theorem DuplicateId.asks (head : RuleHead) (doc : Document) :
    ∀ violation ∈ check head doc, doc.AsksFor violation := by
  intro violation member
  obtain ⟨⟨id,i⟩,_,judged⟩ := List.mem_filterMap.mp member
  obtain ⟨found,_,rfl⟩ := Option.map_eq_some_iff.mp judged
  apply doc.asksFor_nothing
  simp [report,RuleHead.violation]

theorem RequiredChildren.asks (head : RuleHead) (doc : Document) :
    ∀ violation ∈ check head doc, doc.AsksFor violation := by
  intro violation member
  obtain ⟨⟨element,i⟩,_,judged⟩ := List.mem_filterMap.mp member
  unfold judge? at judged
  simp only [Option.bind_eq_bind] at judged
  obtain ⟨⟨role,items⟩,_,judged⟩ := Option.bind_eq_some_iff.mp judged
  split_ifs at judged
  obtain rfl := Option.some.inj judged
  apply doc.asksFor_nothing
  simp [report,RuleHead.violation]

theorem LandmarkUniqueness.asks (head : RuleHead) (doc : Document) :
    ∀ violation ∈ check head doc, doc.AsksFor violation := by
  intro violation member
  apply doc.asksFor_nothing
  rcases List.mem_append.mp member with main | navigation
  · unfold checkMain reportMains at main
    split at main
    · contradiction
    · obtain ⟨other,_,rfl⟩ := List.mem_map.mp main
      simp [RuleHead.violation]
  · unfold checkNavigation at navigation
    simp only at navigation
    split_ifs at navigation
    · contradiction
    · obtain ⟨⟨i,name?⟩,_,judged⟩ := List.mem_filterMap.mp navigation
      unfold judge? at judged
      simp only at judged
      split at judged
      · obtain rfl := Option.some.inj judged
        simp [RuleHead.violation]
      · split at judged
        · split_ifs at judged
          obtain rfl := Option.some.inj judged
          simp [RuleHead.violation]
        · contradiction

theorem HeadingOrder.asks (head : RuleHead) (doc : Document) :
    ∀ violation ∈ check head doc, doc.AsksFor violation := by
  intro violation member
  obtain ⟨⟨before,heading⟩,_,judged⟩ := List.mem_filterMap.mp member
  apply doc.asksFor_nothing
  unfold judge? at judged
  simp only at judged
  split_ifs at judged
  obtain rfl := Option.some.inj judged
  simp [RuleHead.violation]

theorem ListNestingDepth.asks (allowed : Nat) (head : RuleHead) (doc : Document) :
    ∀ violation ∈ check allowed head doc, doc.AsksFor violation := by
  intro violation member
  obtain ⟨i,_,judged⟩ := List.mem_filterMap.mp member
  apply doc.asksFor_nothing
  unfold judge? at judged
  split_ifs at judged
  obtain rfl := Option.some.inj judged
  simp [report,RuleHead.violation]

theorem ListItemCount.asks (allowed : Nat) (head : RuleHead) (doc : Document) :
    ∀ violation ∈ check allowed head doc, doc.AsksFor violation := by
  intro violation member
  obtain ⟨list,_,judged⟩ := List.mem_filterMap.mp member
  apply doc.asksFor_nothing
  unfold judge? verdict? at judged
  split_ifs at judged
  obtain rfl := Option.some.inj judged
  simp [RuleHead.violation]

theorem ListSemantics.renames (settings : ListSemantics.Settings) (head : RuleHead) (doc : Document) :
    ∀ violation ∈ check settings head doc, ∀ fix ∈ violation.fixes, fix = .rename "ol" := by
  intro violation member fix offered
  obtain ⟨list,_,judged⟩ := List.mem_filterMap.mp member
  obtain ⟨found,_,rfl⟩ := Option.map_eq_some_iff.mp judged
  simpa [report,Violation.fixes,RuleHead.violation] using offered

/-- The rules ask for their fixes at elements of the document, but for those that only judge style: their
only fix is another name for a list. -/
theorem asks_of_catalogue (settings : Settings) (rule : Rule) (member : rule ∈ catalogue settings)
    (block : RuleBlock) (doc : Document) (linked : doc.Linked) (violation : Violation) (found : violation ∈ (rule.check block doc).getD []) :
    doc.AsksFor violation ∨
      Preset.heuristicCodes.contains rule.code = true ∧ ∀ fix ∈ violation.fixes, fix = .rename "ol" := by
  simp only [catalogue,List.mem_cons,List.not_mem_nil,or_false] at member
  rcases member with rfl | rfl | rfl | rfl | rfl | rfl | rfl | rfl | rfl | rfl | rfl | rfl | rfl | rfl | rfl | rfl
  · exact Or.inl (TablistSelection.asks _ doc violation (Checked.mem_of_answer (TablistSelection.run_eq linked _) found))
  · exact Or.inl (TabRovingFocus.asks _ doc violation (Checked.mem_of_answer (TabRovingFocus.run_eq linked _) found))
  · exact Or.inl (AriaReference.asks _ _ doc violation found)
  · exact Or.inl (DuplicateId.asks _ doc violation (Checked.mem_of_answer (DuplicateId.run_eq linked _) found))
  · exact Or.inl (PanelVisibility.asks _ doc linked violation
      (Checked.mem_of_answer (PanelVisibility.run_eq linked _) found))
  · exact Or.inl (RequiredChildren.asks _ doc violation (Checked.mem_of_answer (RequiredChildren.run_eq linked _) found))
  · exact Or.inl (RequiredParent.asks _ _ doc violation (Checked.mem_of_answer (RequiredParent.run_eq linked _ _) found))
  · exact Or.inl (AriaAttributeValue.asks _ doc violation found)
  · exact Or.inl (RequiredState.asks _ doc violation found)
  · exact Or.inl (ListNestingDepth.asks _ _ doc violation
      (Checked.mem_of_answer (ListNestingDepth.run_eq linked _ _) found))
  · exact Or.inl (ListItemCount.asks _ _ doc violation (Checked.mem_of_answer (ListItemCount.run_eq linked _ _) found))
  · exact Or.inr ⟨rfl,ListSemantics.renames _ _ doc violation
      (Checked.mem_of_answer (ListSemantics.run_eq linked _ _) found)⟩
  · exact Or.inl (LandmarkUniqueness.asks _ doc violation
      (Checked.mem_of_answer (LandmarkUniqueness.run_eq linked _) found))
  · exact Or.inl (LiveRegion.asks _ doc violation (Checked.mem_of_answer (LiveRegion.run_eq linked _) found))
  · exact Or.inl (HiddenFocusable.asks _ doc violation (Checked.mem_of_answer (HiddenFocusable.run_eq linked _) found))
  · exact Or.inl (HeadingOrder.asks _ doc violation found)

theorem asks_of_recommended (rule : Rule) (member : rule ∈ Preset.recommended.rules) (block : RuleBlock)
    (doc : Document) (linked : doc.Linked) (violation : Violation)
    (found : violation ∈ (rule.check block doc).getD []) : doc.AsksFor violation := by
  obtain ⟨listed,selected⟩ := List.mem_filter.mp member
  rw [Preset.selects,Bool.not_eq_true'] at selected
  refine (asks_of_catalogue {} rule listed block doc linked violation found).resolve_right ?_
  rintro ⟨heuristic,_⟩
  rw [selected] at heuristic
  contradiction

end Rules

namespace Analyzer

theorem allow?_cases {directives : AllowDirectives} {rule : Rule} {violation left : Violation}
    (allowed : allow? directives rule violation = some left) :
    left = violation ∨ left = missingReason rule violation := by
  unfold allow? at allowed
  split at allowed
  · exact Or.inl (Option.some.inj allowed).symm
  · split_ifs at allowed
    exact Or.inr (Option.some.inj allowed).symm

theorem mem_run? {analyzer : Analyzer} {doc : Document} {rule : Rule} {reported : Violation}
    (member : reported ∈ (analyzer.run? doc rule).getD []) :
    ∃ found ∈ (rule.check ((analyzer.config.block? rule.name).getD {}) doc).getD [],
      reported = { found with severity := (analyzer.config.severity? rule.name).getD found.severity } := by
  unfold run? at member
  cases checked : rule.check ((analyzer.config.block? rule.name).getD {}) doc with
  | none => simp [checked] at member
  | some all =>
    rw [checked,Option.map_some,Option.getD_some] at member
    split at member
    next severity set =>
      obtain ⟨original,known,rfl⟩ := List.mem_map.mp member
      exact ⟨original,known,by rw [set,Option.getD_some]⟩
    next unset => exact ⟨reported,member,by rw [unset,Option.getD_none]⟩

theorem rule_of_offers (analyzer : Analyzer) (text : List Char) (offset : Nat) (fix : Fix)
    (offered : Report.Offers (analyzer.analyze text).violations offset fix) :
    let doc := Document.read text analyzer.filter
    ∃ rule ∈ analyzer.registry.rules,
      ∃ found ∈ (rule.check ((analyzer.config.block? rule.name).getD {}) doc).getD [],
        fix ∈ found.fixes ∧ min found.location.offset doc.length = offset := by
  intro doc
  obtain ⟨violation,member,fixes,place⟩ := Report.collect_offers _ _ _ _ offered
  obtain ⟨outcome,ran,contributed⟩ := List.mem_flatMap.mp member
  obtain ⟨rule,enabled,rfl⟩ := List.mem_map.mp ran
  obtain ⟨found,reported,allowed⟩ := List.mem_filterMap.mp contributed
  obtain ⟨original,known,rfl⟩ := mem_run? reported
  rcases allow?_cases allowed with rfl | rfl
  · exact ⟨rule,(List.mem_filter.mp enabled).1,original,known,fixes,place⟩
  · simp [Violation.fixes,missingReason] at fixes

end Analyzer

theorem asks_of_analyze (text : List Char) (offset : Nat) (fix : Fix)
    (offered : Report.Offers (Linter.standard.analyzer.analyze text).violations offset fix) :
    let doc := Document.read text Linter.standard.analyzer.filter
    ∃ element ∈ doc.elements, doc.Anchors element offset ∧ Asks doc.elements element fix := by
  intro doc
  obtain ⟨rule,listed,original,known,fixes,place⟩ := Linter.standard.analyzer.rule_of_offers _ _ _ offered
  obtain ⟨element,inside,⟨start,anchor,kind⟩,asks⟩ :=
    Rules.asks_of_recommended rule listed _ doc (Document.read_linked text _) original known fix fixes
  refine ⟨element,inside,⟨start,?_,kind⟩,asks⟩
  change min original.location.offset doc.length = offset at place
  omega

end AccessibleMarkup
