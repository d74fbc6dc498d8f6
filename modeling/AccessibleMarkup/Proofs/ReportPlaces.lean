import AccessibleMarkup.Proofs.FaultlessRules
import AccessibleMarkup.Proofs.FixDemands
import AccessibleMarkup.Proofs.OutlineForest

/-! What rules report. Every violation of a rule carries its code. Every index that a rule follows is that
of an element, so a violation and its labels stand at the opening tag or at an attribute of an element. -/
namespace AccessibleMarkup

open Text Markup

namespace Document

def IsPlace (doc : Document) (location : Location) : Prop :=
  ∃ element ∈ doc.elements, location = doc.location element.start element.openStop ∨
    ∃ attr ∈ element.attributes, location = doc.location attr.range.start attr.range.stop

/-- A violation that is reported, with its labels, at tags and attributes of the document. -/
def Locates (doc : Document) (violation : Violation) : Prop :=
  doc.IsPlace violation.location ∧ ∀ label ∈ violation.labels, doc.IsPlace label.location

/-- A violation of the rule with the head: it carries its code, and its places are those of elements. -/
structure Reports (doc : Document) (head : RuleHead) (violation : Violation) : Prop where
  code : violation.code = head.code
  located : doc.Linked → doc.Locates violation

variable {doc : Document} {i : Nat}

theorem isPlace_openTag (inside : i < doc.elements.length) : doc.IsPlace (doc.openTagLocation i) := by
  refine ⟨doc.elements[i],List.getElem_mem inside,Or.inl ?_⟩
  rw [openTagLocation,List.getElem?_eq_getElem inside]

theorem isPlace_attribute (inside : i < doc.elements.length) (name : String) :
    doc.IsPlace (doc.attributeLocation i name) := by
  unfold attributeLocation
  split
  next attr found =>
    obtain ⟨element,present,first⟩ := Option.bind_eq_some_iff.mp found
    exact ⟨element,List.mem_of_getElem? present,Or.inr ⟨attr,List.mem_of_find?_eq_some first,rfl⟩⟩
  next => exact isPlace_openTag inside

theorem reports_openTag (inside : i < doc.elements.length) (head : RuleHead) (message : String)
    (suggestions : List Suggestion) :
    doc.Reports head (head.violation (doc.openTagLocation i) message suggestions) :=
  ⟨rfl,fun _ => ⟨isPlace_openTag inside,by simp [RuleHead.violation]⟩⟩

theorem reports_attribute (inside : doc.Linked → i < doc.elements.length) (name : String) (head : RuleHead)
    (message : String) (suggestions : List Suggestion) :
    doc.Reports head (head.violation (doc.attributeLocation i name) message suggestions) :=
  ⟨rfl,fun linked => ⟨isPlace_attribute (inside linked) name,by simp [RuleHead.violation]⟩⟩

theorem reports_labelled {location other : Location}
    (places : doc.Linked → doc.IsPlace location ∧ doc.IsPlace other) (head : RuleHead)
    (message note : String) (suggestions : List Suggestion) :
    doc.Reports head (head.violation location message suggestions [⟨other,note⟩]) := by
  refine ⟨rfl,fun linked => ⟨(places linked).1,fun label member => ?_⟩⟩
  rw [List.mem_singleton.mp member]
  exact (places linked).2

end Document

namespace Rules

variable (head : RuleHead) (doc : Document)

open Document

theorem TablistSelection.reports : ∀ violation ∈ check head doc, doc.Reports head violation := by
  intro violation member
  obtain ⟨tablist,known,judged⟩ := List.mem_filterMap.mp member
  have inside := lt_of_indicesWhere known
  unfold judge? verdict? at judged
  dsimp only at judged
  split_ifs at judged
  split at judged
  · rw [← Option.some.inj judged]
    exact ⟨rfl,fun _ => ⟨isPlace_openTag inside,by simp [RuleHead.violation]⟩⟩
  · contradiction
  · rw [← Option.some.inj judged]
    refine ⟨rfl,fun _ => ⟨isPlace_openTag inside,fun label labelled => ?_⟩⟩
    obtain ⟨tab,selected,rfl⟩ := List.mem_map.mp labelled
    exact isPlace_attribute (lt_of_groupMembers (List.mem_filter.mp selected).1) _

theorem TabRovingFocus.anchor_of_groups {group : Group} (member : group ∈ groups doc) :
    group.anchor < doc.elements.length := by
  have tabs : ∀ tab ∈ group.tabs, tab < doc.elements.length := fun tab => lt_of_groups member
  have stray {parent : Option Nat} (found : strayGroup? doc parent = some group) :
      group.anchor < doc.elements.length := by
    unfold strayGroup? at found
    split at found
    · contradiction
    next first more listed =>
      obtain rfl := Option.some.inj found
      exact tabs first List.mem_cons_self
  rcases List.mem_append.mp member with outermost | nested
  · exact stray (Option.mem_toList.mp outermost)
  · obtain ⟨i,ranged,found⟩ := List.mem_filterMap.mp nested
    unfold groupAt? at found
    split_ifs at found
    · split at found
      · contradiction
      · obtain rfl := Option.some.inj found
        exact List.mem_range.mp ranged
    · exact stray found

theorem TabRovingFocus.reports : ∀ violation ∈ check head doc, doc.Reports head violation := by
  intro violation member
  obtain ⟨group,listed,judged⟩ := List.mem_flatMap.mp member
  have grouped := (List.mem_filter.mp listed).1
  have anchored := anchor_of_groups doc grouped
  have tabs : ∀ tab ∈ group.tabs, tab < doc.elements.length := fun tab => lt_of_groups grouped
  obtain ⟨found,reported,rfl⟩ := List.mem_map.mp judged
  suffices here : doc.Reports head found from ⟨here.code,here.located⟩
  rcases List.mem_append.mp reported with whole | single
  · unfold judgeWhole at whole
    dsimp only at whole
    split_ifs at whole
    · rw [List.mem_singleton.mp whole]
      exact reports_openTag anchored head _ _
    · rw [List.mem_singleton.mp whole]
      exact reports_openTag anchored head _ _
    · contradiction
  · split at single
    next active chosen =>
      have selected : active ∈ group.tabs := by
        have one : active ∈ group.tabs.filter (doc.saysTrue "aria-selected") := by simp [chosen]
        exact (List.mem_filter.mp one).1
      have inactive : ∀ tab ∈ group.tabs.filter fun tab => tab != active && doc.holdsAt (·.inFocusOrder) tab,
          doc.Reports head (head.violation (doc.openTagLocation tab) "Inactive tab should have tabindex=\"-1\""
            [setTabIndex "-1"]) :=
        fun tab kept => reports_openTag (tabs tab (List.mem_filter.mp kept).1) head _ _
      unfold judgeTabs verdictOnTabs at single
      dsimp only at single
      split_ifs at single
      · obtain ⟨tab,kept,rfl⟩ := List.mem_map.mp single
        exact inactive tab kept
      · rcases List.mem_append.mp single with others | itself
        · obtain ⟨tab,kept,rfl⟩ := List.mem_map.mp others
          exact inactive tab kept
        · rw [List.mem_singleton.mp itself]
          exact reports_openTag (tabs active selected) head _ _
    next => contradiction

theorem AriaReference.reports (kinds : List ReferenceKind) :
    ∀ violation ∈ checkKinds kinds head doc, doc.Reports head violation := by
  intro violation member
  obtain ⟨reference,broken,rfl⟩ := List.mem_map.mp member
  obtain ⟨kind,_,ofKind⟩ := List.mem_flatMap.mp (List.mem_filter.mp broken).1
  exact reports_attribute (fun linked => linked.lt_of_reference (List.mem_filter.mp ofKind).1) _ head _ _

theorem DuplicateId.reports :
    ∀ violation ∈ check head doc, doc.Reports head violation := by
  intro violation member
  obtain ⟨⟨id,i⟩,listed,judged⟩ := List.mem_filterMap.mp member
  obtain ⟨⟨first,element⟩,resolved,rfl⟩ := Option.map_eq_some_iff.mp judged
  refine reports_labelled (fun linked => ⟨?_,isPlace_attribute (lt_of_resolve resolved) _⟩) head _ _ _
  exact isPlace_attribute (linked.lt_of_duplicate (List.mem_filter.mp listed).1) _

theorem PanelVisibility.reports :
    ∀ violation ∈ check head doc, doc.Reports head violation := by
  intro violation member
  obtain ⟨reference,listed,judged⟩ := List.mem_filterMap.mp member
  have source := fun linked : doc.Linked => linked.lt_of_reference (List.mem_filter.mp listed).1
  unfold judge? at judged
  simp only [Option.bind_eq_bind] at judged
  split_ifs at judged
  · contradiction
  obtain ⟨controller,_,judged⟩ := Option.bind_eq_some_iff.mp judged
  obtain ⟨⟨name,active⟩,_,judged⟩ := Option.bind_eq_some_iff.mp judged
  obtain ⟨⟨i,panel⟩,resolved,judged⟩ := Option.bind_eq_some_iff.mp judged
  have place := isPlace_openTag (lt_of_resolve resolved)
  unfold verdict? at judged
  simp only at judged
  split_ifs at judged
  split at judged
  · rw [← Option.some.inj judged]
    exact reports_labelled (fun linked => ⟨place,isPlace_attribute (source linked) _⟩) head _ _ _
  · rw [← Option.some.inj judged]
    exact reports_labelled (fun linked => ⟨place,isPlace_attribute (source linked) _⟩) head _ _ _
  · contradiction

theorem RequiredChildren.reports : ∀ violation ∈ check head doc, doc.Reports head violation := by
  intro violation member
  obtain ⟨⟨element,i⟩,indexed,judged⟩ := List.mem_filterMap.mp member
  obtain ⟨⟨role,items⟩,_,judged⟩ := Option.bind_eq_some_iff.mp judged
  dsimp only at judged
  split_ifs at judged
  rw [← Option.some.inj judged]
  exact reports_openTag (lt_of_indexed indexed) head _ _

theorem RequiredParent.reports (ignoreTopLevel : Bool) :
    ∀ violation ∈ check ignoreTopLevel head doc, doc.Reports head violation := by
  intro violation member
  obtain ⟨⟨element,i⟩,indexed,judged⟩ := List.mem_filterMap.mp member
  obtain ⟨⟨role,containers⟩,_,judged⟩ := Option.bind_eq_some_iff.mp judged
  dsimp only at judged
  split_ifs at judged
  rw [← Option.some.inj judged]
  exact reports_openTag (lt_of_indexed indexed) head _ _

theorem AriaAttributeValue.reports : ∀ violation ∈ check head doc, doc.Reports head violation := by
  intro violation member
  obtain ⟨⟨element,i⟩,indexed,judged⟩ := List.mem_flatMap.mp member
  obtain ⟨attr,_,judged⟩ := List.mem_filterMap.mp judged
  obtain ⟨legal,_,made⟩ := Option.bind_eq_some_iff.mp judged
  rw [← Option.some.inj made]
  exact reports_attribute (fun _ => lt_of_indexed indexed) _ head _ _

theorem RequiredState.reports : ∀ violation ∈ check head doc, doc.Reports head violation := by
  intro violation member
  obtain ⟨⟨element,i⟩,indexed,judged⟩ := List.mem_filterMap.mp member
  obtain ⟨requirement,_,judged⟩ := Option.bind_eq_some_iff.mp judged
  dsimp only at judged
  split_ifs at judged
  · contradiction
  · rw [← Option.some.inj judged]
    exact reports_openTag (lt_of_indexed indexed) head _ _

theorem ListNestingDepth.reports (allowed : Nat) :
    ∀ violation ∈ check allowed head doc, doc.Reports head violation := by
  intro violation member
  obtain ⟨i,ranged,judged⟩ := List.mem_filterMap.mp member
  unfold judge? at judged
  split_ifs at judged
  rw [← Option.some.inj judged]
  exact reports_openTag (List.mem_range.mp ranged) head _ _

theorem ListItemCount.reports (allowed : Nat) :
    ∀ violation ∈ check allowed head doc, doc.Reports head violation := by
  intro violation member
  obtain ⟨list,known,judged⟩ := List.mem_filterMap.mp member
  unfold judge? verdict? at judged
  split_ifs at judged
  rw [← Option.some.inj judged]
  exact reports_openTag (lt_of_indicesWhere known) head _ _

theorem ListSemantics.reports (settings : Settings) :
    ∀ violation ∈ check settings head doc, doc.Reports head violation := by
  intro violation member
  obtain ⟨list,known,judged⟩ := List.mem_filterMap.mp member
  obtain ⟨found,_,rfl⟩ := Option.map_eq_some_iff.mp judged
  exact reports_openTag (lt_of_indicesWhere known) head _ _

theorem LandmarkUniqueness.reports : ∀ violation ∈ check head doc, doc.Reports head violation := by
  intro violation member
  rcases List.mem_append.mp member with main | navigation
  · unfold checkMain reportMains at main
    split at main
    · contradiction
    next first others listed =>
      have inside : ∀ landmark ∈ first :: others, landmark < doc.elements.length := by
        rw [← listed]
        exact fun landmark => lt_of_indicesWhere
      obtain ⟨other,later,rfl⟩ := List.mem_map.mp main
      have here := isPlace_openTag (inside other (List.mem_cons_of_mem _ later))
      have there := isPlace_openTag (inside first List.mem_cons_self)
      exact reports_labelled (fun _ => ⟨here,there⟩) head _ _ _
  · have inside : ∀ named ∈ namedNavigations doc, named.1 < doc.elements.length := by
      intro named listed
      obtain ⟨⟨element,i⟩,kept,rfl⟩ := List.mem_map.mp listed
      exact lt_of_indexed (List.mem_filter.mp kept).1
    unfold checkNavigation at navigation
    dsimp only at navigation
    split_ifs at navigation
    · contradiction
    · obtain ⟨⟨i,name?⟩,listed,judged⟩ := List.mem_filterMap.mp navigation
      have here := inside _ listed
      unfold judge? at judged
      simp only at judged
      split at judged
      · rw [← Option.some.inj judged]
        exact reports_openTag here head _ _
      · split at judged
        next first name same =>
          split_ifs at judged
          rw [← Option.some.inj judged]
          have there := inside _ (List.mem_of_find?_eq_some same)
          exact reports_labelled (fun _ => ⟨isPlace_openTag here,isPlace_openTag there⟩) head _ _ _
        next => contradiction

theorem LiveRegion.reports :
    ∀ violation ∈ check head doc, doc.Reports head violation := by
  intro violation member
  obtain ⟨⟨element,i⟩,indexed,judged⟩ := List.mem_flatMap.mp member
  have inside := lt_of_indexed indexed
  rcases List.mem_append.mp judged with politeness | hidden
  · obtain ⟨role,_,judged⟩ := Option.bind_eq_some_iff.mp (Option.mem_toList.mp politeness)
    obtain ⟨implied,_,judged⟩ := Option.bind_eq_some_iff.mp judged
    obtain ⟨written,_,judged⟩ := Option.bind_eq_some_iff.mp judged
    split_ifs at judged
    · contradiction
    · rw [← Option.some.inj judged]
      exact reports_attribute (fun _ => inside) _ head _ _
  · have judged := Option.mem_toList.mp hidden
    unfold judgeHidden? at judged
    split_ifs at judged
    · rw [← Option.some.inj judged]
      exact reports_attribute (fun _ => inside) _ head _ _
    · obtain ⟨outer,found,rfl⟩ := Option.map_eq_some_iff.mp judged
      have around := fun linked : doc.Linked => linked.lt_of_ancestors (List.mem_of_find?_eq_some found)
      exact reports_labelled (fun linked => ⟨isPlace_openTag inside,isPlace_attribute (around linked) _⟩) head
        _ _ _

theorem HiddenFocusable.reports : ∀ violation ∈ check head doc, doc.Reports head violation := by
  intro violation member
  obtain ⟨⟨element,i⟩,indexed,judged⟩ := List.mem_filterMap.mp member
  have inside := lt_of_indexed indexed
  unfold judge? at judged
  dsimp only at judged
  split_ifs at judged
  · rw [← Option.some.inj judged]
    exact reports_attribute (fun _ => inside) _ head _ _
  · obtain ⟨first,found,rfl⟩ := Option.map_eq_some_iff.mp judged
    have reachable := (List.mem_filter.mp (List.mem_of_mem_head? found)).1
    have there := isPlace_openTag (lt_of_descendants (List.mem_filter.mp reachable).1)
    exact reports_labelled (fun _ => ⟨isPlace_attribute inside _,there⟩) head _ _ _

theorem HeadingOrder.reports : ∀ violation ∈ check head doc, doc.Reports head violation := by
  intro violation member
  obtain ⟨⟨before,heading⟩,paired,judged⟩ := List.mem_filterMap.mp member
  have inside : ∀ heading ∈ headings doc, heading.1 < doc.elements.length := by
    intro heading listed
    obtain ⟨⟨element,i⟩,indexed,leveled⟩ := List.mem_filterMap.mp listed
    obtain ⟨level,_,rfl⟩ := Option.map_eq_some_iff.mp leveled
    exact lt_of_indexed indexed
  obtain ⟨first,second⟩ := List.of_mem_zip paired
  unfold judge? at judged
  dsimp only at judged
  split_ifs at judged
  rw [← Option.some.inj judged]
  have here := isPlace_openTag (inside heading (List.mem_of_mem_tail second))
  exact reports_labelled (fun _ => ⟨here,isPlace_openTag (inside before first)⟩) head _ _ _

end Rules

theorem Rules.reports_of_catalogue (settings : Settings) (doc : Document) (linked : doc.Linked) (rule : Rule)
    (listed : rule ∈ catalogue settings) (block : RuleBlock) (violation : Violation)
    (found : violation ∈ (rule.check block doc).getD []) : doc.Reports rule.toRuleHead violation := by
  simp only [catalogue,List.mem_cons,List.not_mem_nil,or_false] at listed
  rcases listed with rfl | rfl | rfl | rfl | rfl | rfl | rfl | rfl | rfl | rfl | rfl | rfl | rfl | rfl | rfl | rfl
  · exact TablistSelection.reports _ doc violation (Checked.mem_of_answer (TablistSelection.run_eq linked _) found)
  · exact TabRovingFocus.reports _ doc violation (Checked.mem_of_answer (TabRovingFocus.run_eq linked _) found)
  · exact AriaReference.reports _ doc _ violation found
  · exact DuplicateId.reports _ doc violation (Checked.mem_of_answer (DuplicateId.run_eq linked _) found)
  · exact PanelVisibility.reports _ doc violation (Checked.mem_of_answer (PanelVisibility.run_eq linked _) found)
  · exact RequiredChildren.reports _ doc violation (Checked.mem_of_answer (RequiredChildren.run_eq linked _) found)
  · exact RequiredParent.reports _ doc _ violation (Checked.mem_of_answer (RequiredParent.run_eq linked _ _) found)
  · exact AriaAttributeValue.reports _ doc violation found
  · exact RequiredState.reports _ doc violation found
  · exact ListNestingDepth.reports _ doc _ violation (Checked.mem_of_answer (ListNestingDepth.run_eq linked _ _) found)
  · exact ListItemCount.reports _ doc _ violation (Checked.mem_of_answer (ListItemCount.run_eq linked _ _) found)
  · exact ListSemantics.reports _ doc _ violation (Checked.mem_of_answer (ListSemantics.run_eq linked _ _) found)
  · exact LandmarkUniqueness.reports _ doc violation (Checked.mem_of_answer (LandmarkUniqueness.run_eq linked _) found)
  · exact LiveRegion.reports _ doc violation (Checked.mem_of_answer (LiveRegion.run_eq linked _) found)
  · exact HiddenFocusable.reports _ doc violation (Checked.mem_of_answer (HiddenFocusable.run_eq linked _) found)
  · exact HeadingOrder.reports _ doc violation found

end AccessibleMarkup
