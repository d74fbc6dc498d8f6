import AccessibleMarkup.Proofs.FixMeasure
import AccessibleMarkup.Proofs.LoneRules
import AccessibleMarkup.Proofs.TabFocusRepair
import AccessibleMarkup.Proofs.WrappedTags

/-! Items that stand in no container of their role. The fix puts an item into a new list, whatever its role is,
so it helps those that are for a list. The main result is `wrap_settles_iff`. -/
namespace AccessibleMarkup

open Text Markup

namespace Markup

variable {text before name inner body after : List Char} {node : Node} {k : Nat}

/-- An element in a new list, and that list. -/
structure Listed (result : List Char) (k : Nat) (element list item : Element) : Prop where
  list_found : (elements result)[k]? = some list
  list_name : list.name = "ul"
  list_role : list.role = some "list"
  found : (elements result)[k + 1]? = some item
  parent : item.parent = some k
  start : item.start = element.start + 4
  detached : item.detached = element.detached
  alike : element.Alike item

theorem Node.PiecesIn.exists_listed (pieces : node.PiecesIn text before name inner body after)
    (found : (outlineNodes text)[k]? = some node) (known : node.extent.isKnown = true) :
    ∃ list item, Listed (wrapText before name inner body after) k (Element.ofNode text node) list item := by
  obtain ⟨list,item,one,two,first,second⟩ := pieces.wrapped_opened found known
  obtain ⟨_,opened⟩ := pieces.opened found known
  simp only [Node.opened,Prod.mk.injEq] at first second opened
  obtain ⟨listName,listStart,listStop,_⟩ := first
  obtain ⟨itemName,itemStart,itemStop,itemParent,_,itemDetached⟩ := second
  have moved := Element.profile_shift (· + 4) node (pieces.slice_tag found)
  have opening := pieces.slice_listOpening
  generalize wrapText before name inner body after = result at one two moved opening ⊢
  have bare : (Element.ofNode result list).attributes = [] := by
    simp only [Element.ofNode,listStart,listStop,opening]
    rfl
  have contents : (Element.ofNode result item).profile.attributes = (Element.ofNode text node).profile.attributes := by
    rw [← moved]
    simp only [Element.profile,Element.ofNode,itemStart,itemStop]
    rfl
  have listFound : (elements result)[k]? = some (Element.ofNode result list) := by
    rw [elements_getElem?,one]
    rfl
  have itemFound : (elements result)[k + 1]? = some (Element.ofNode result item) := by
    rw [elements_getElem?,two]
    rfl
  refine ⟨Element.ofNode result list,Element.ofNode result item,listFound,listName,?_,itemFound,itemParent,itemStart,
    itemDetached.trans opened.2.2.2.2.2.symm,?_⟩
  · change role? list.name (Element.ofNode result list).attributes = _
    rw [listName,bare]
    decide
  · have member : Element.ofNode text node ∈ elements text := List.mem_map_of_mem (List.mem_of_getElem? found)
    have value (attr : String) : (Element.ofNode text node).value? attr = (Element.ofNode result item).value? attr := by
      rw [Element.value?_profile,Element.value?_profile,contents]
    exact ⟨itemName.symm,Element.alike_of_values member (List.mem_of_getElem? itemFound) itemName.symm
      fun attr _ => value attr,value⟩

end Markup

namespace Rules.RequiredParent

variable {text result : List Char} {k i : Nat} {element list item : Element} {head : RuleHead} {doc : Document}
  {ignoreTopLevel : Bool} {violation : Violation}

theorem contextRole?_listed (listed : Listed result k element list item) :
    contextRole? (Document.read result) (k + 1) = some "list" := by
  have size : (Document.read result).elements.length ≠ 0 := by
    intro empty
    have inside := (List.getElem?_eq_some_iff.mp listed.list_found).1
    change k < (Document.read result).elements.length at inside
    omega
  obtain ⟨steps,length⟩ := Nat.exists_eq_succ_of_ne_zero size
  have here : (Document.read result).elements[k + 1]? = some item := listed.found
  have outer : (Document.read result).elements[k]? = some list := listed.list_found
  have bound : ((Document.read result).elements[k + 1]?).bind (·.parent) = some k := by
    rw [here]
    exact listed.parent
  have given : context? list = some "list" := by
    rw [context?,listed.list_role]
    decide
  rw [contextRole?,Document.ancestors,length,Document.ancestorsWithin,bound]
  dsimp only
  rw [List.findSome?_cons,outer,Option.bind_some,given]

theorem item?_eq_some_iff {given : String} {containers : List String} :
    item? element = some (given,containers) ↔ element.role = some given ∧
      containerRoles.lookup given = some containers ∧ isJudged element given = true := by
  simp only [item?,bind,Option.bind_eq_some_iff,Option.ite_none_right_eq_some,Option.some.injEq,Prod.mk.injEq]
  constructor
  · rintro ⟨_,role,_,listed,judged,rfl,rfl⟩
    exact ⟨role,listed,judged⟩
  · rintro ⟨role,listed,judged⟩
    exact ⟨given,role,containers,listed,judged,rfl,rfl⟩

/-- An element with the role of an item that is judged, and around which the nearest role is not one of a container
for it. -/
structure Misplaced (ignoreTopLevel : Bool) (doc : Document) (element : Element) (i : Nat) (given : String)
    (containers : List String) : Prop where
  role : element.role = some given
  listed : containerRoles.lookup given = some containers
  judged : isJudged element given = true
  outside : (contextRole? doc i).any containers.contains = false
  lone : ((contextRole? doc i).isNone && ignoreTopLevel) = false

theorem judge?_eq_some (judged : judge? ignoreTopLevel head doc (element,i) = some violation) :
    (∃ given containers, Misplaced ignoreTopLevel doc element i given containers) ∧
      violation.location = doc.openTagLocation i ∧
      ∀ fix ∈ violation.fixes, fix = .wrap "ul" [] := by
  unfold judge? at judged
  simp only [Option.bind_eq_bind] at judged
  obtain ⟨⟨given,containers⟩,item,judged⟩ := Option.bind_eq_some_iff.mp judged
  obtain ⟨role,listed,settled⟩ := item?_eq_some_iff.mp item
  split_ifs at judged with spared
  simp only [Bool.or_eq_true,not_or,Bool.not_eq_true] at spared
  obtain ⟨outside,lone⟩ := spared
  obtain rfl := Option.some.inj judged
  refine ⟨⟨given,containers,role,listed,settled,outside,lone⟩,rfl,fun fix offered => ?_⟩
  simp only [report,Violation.fixes,RuleHead.violation,suggestion] at offered
  split_ifs at offered
  · simpa using offered
  · simp at offered

theorem Misplaced.isSome_judge? {given : String} {containers : List String}
    (misplaced : Misplaced ignoreTopLevel doc element i given containers) (head : RuleHead) :
    (judge? ignoreTopLevel head doc (element,i)).isSome = true := by
  have item := item?_eq_some_iff.mpr ⟨misplaced.role,misplaced.listed,misplaced.judged⟩
  simp [judge?,item,misplaced.outside,misplaced.lone]

theorem exists_mem_check_iff (found : (Document.read result).elements[i]? = some element) :
    (∃ violation ∈ check ignoreTopLevel head (Document.read result),
        violation.location = (Document.read result).openTagLocation i) ↔
      ∃ given containers, Misplaced ignoreTopLevel (Document.read result) element i given containers := by
  constructor
  · rintro ⟨violation,member,place⟩
    obtain ⟨⟨other,j⟩,indexed,judged⟩ := List.mem_filterMap.mp member
    obtain ⟨misplaced,here,_⟩ := judge?_eq_some judged
    obtain rfl := Document.openTagLocation_injective (Document.lt_of_indexed indexed)
      (List.getElem?_eq_some_iff.mp found).1 (here.symm.trans place)
    obtain rfl := Option.some.inj ((Document.mem_indexed _ _ _ indexed).symm.trans found)
    exact misplaced
  · rintro ⟨given,containers,misplaced⟩
    obtain ⟨violation,judged⟩ := Option.isSome_iff_exists.mp (misplaced.isSome_judge? head)
    exact ⟨violation,List.mem_filterMap.mpr ⟨(element,i),List.mem_zipIdx_iff_getElem?.mpr found,judged⟩,
      (judge?_eq_some judged).2.1⟩

theorem contains_list : ∀ entry ∈ containerRoles, entry.2.contains "list" = (entry.1 == "listitem") := by decide

theorem contains_list_of_lookup {given : String} {containers : List String}
    (listed : containerRoles.lookup given = some containers) : containers.contains "list" = (given == "listitem") := by
  obtain ⟨before,after,parts,_⟩ := List.lookup_eq_some_iff.mp listed
  refine contains_list (given,containers) ?_
  rw [parts]
  exact List.mem_append_right _ List.mem_cons_self

theorem misplaced_listed_iff (listed : Listed result k element list item)
    (misplaced : ∃ given containers, Misplaced ignoreTopLevel (Document.read text) element i given containers) :
    (∃ given containers, Misplaced ignoreTopLevel (Document.read result) item (k + 1) given containers) ↔
      element.role ≠ some "listitem" := by
  obtain ⟨given,containers,wrong⟩ := misplaced
  have context := contextRole?_listed listed
  have contained := contains_list_of_lookup wrong.listed
  constructor
  · rintro ⟨other,others,still⟩ item
    have role : some other = some "listitem" := still.role.symm.trans (listed.alike.role.symm.trans item)
    obtain rfl := Option.some.inj role
    have outside := still.outside
    rw [context,Option.any_some,contains_list_of_lookup still.listed] at outside
    contradiction
  · intro other
    refine ⟨given,containers,listed.alike.role.symm.trans wrong.role,wrong.listed,?_,?_,?_⟩
    · have judged := wrong.judged
      rwa [isJudged,listed.alike.writesRole,← listed.detached] at judged
    · rw [context,Option.any_some,contained,beq_eq_false_iff_ne]
      rintro rfl
      exact other wrong.role
    · rw [context]
      rfl

/-- The fix of a misplaced item puts it into a new list. Nothing is reported of it there if and only if it has the
role of an item of a list, whatever its tag is called. -/
theorem wrap_settles_iff {violations : List Violation} {fix : Fix} {edit : Edit}
    (answer : run ignoreTopLevel head (Document.read text) = some violations) (reported : violation ∈ violations)
    (offered : fix ∈ violation.fixes)
    (planned : fix.plan text violation.location.offset Filter.keep = .ok (.applied edit)) :
    ∃ k element result list item later, (elements text)[k]? = some element ∧
      violation.location = (Document.read text).openTagLocation k ∧ edit.apply text = .ok result ∧
      Listed result k element list item ∧ run ignoreTopLevel head (Document.read result) = some later ∧
      ((∀ found ∈ later, found.location ≠ (Document.read result).openTagLocation (k + 1)) ↔
        element.role = some "listitem") := by
  obtain rfl := Option.some.inj ((run_eq (Document.read_linked text Filter.keep) _ _).symm.trans answer)
  obtain ⟨⟨element,k⟩,indexed,judged⟩ := List.mem_filterMap.mp reported
  obtain ⟨misplaced,place,fixes⟩ := judge?_eq_some judged
  obtain rfl := fixes fix offered
  have found : (elements text)[k]? = some element := Document.mem_indexed _ _ _ indexed
  obtain ⟨node,present,rfl⟩ := Option.map_eq_some_iff.mp ((elements_getElem? text k).symm.trans found)
  have offset : violation.location.offset = node.start := by
    rw [place]
    exact Document.openTagLocation_offset found
  rw [offset] at planned
  have member := List.mem_of_getElem? present
  obtain ⟨before,name,inner,body,after,pieces⟩ := Node.exists_piecesIn member
  obtain ⟨known,applied⟩ := pieces.apply_wrap member planned
  obtain ⟨list,item,listed⟩ := pieces.exists_listed present known
  generalize wrapText before name inner body after = result at applied listed
  refine ⟨k,_,result,list,item,_,found,place,applied,listed,run_eq (Document.read_linked result Filter.keep) _ _,?_⟩
  have reported := @exists_mem_check_iff result (k + 1) item head ignoreTopLevel listed.found
  rw [misplaced_listed_iff listed misplaced] at reported
  constructor
  · intro silent
    by_contra other
    obtain ⟨still,member,here⟩ := reported.mpr other
    exact silent still member here
  · intro item still member here
    exact reported.mp ⟨still,member,here⟩ item

theorem wrapped_tab_misplaced :
    let text := "<li role=\"tab\">x</li>".toList
    ∃ violations, run false rule.toRuleHead (Document.read text) = some violations ∧
      ∃ violation ∈ violations, ∃ fix ∈ violation.fixes, ∃ edit,
        fix.plan text violation.location.offset Filter.keep = .ok (.applied edit) ∧
        ∃ k result later, violation.location = (Document.read text).openTagLocation k ∧ edit.apply text = .ok result ∧
          run false rule.toRuleHead (Document.read result) = some later ∧
          ∃ found ∈ later, found.location = (Document.read result).openTagLocation (k + 1) := by
  intro text
  let violation := rule.toRuleHead.violation ((Document.read text).openTagLocation 0)
    "Element with role \"tab\" must be contained in an element with role \"tablist\" (found no container)"
    [⟨"Wrap the item in <ul>",some (.wrap "ul" [])⟩]
  have answer : run false rule.toRuleHead (Document.read text) = some [violation] := by decide +kernel
  have reported : violation ∈ [violation] := List.mem_singleton_self _
  have offered : Fix.wrap "ul" [] ∈ violation.fixes := by decide +kernel
  have planned : (Fix.wrap "ul" []).plan text violation.location.offset Filter.keep =
      .ok (.applied ⟨⟨0,21⟩,"<ul><li role=\"tab\">x</li></ul>".toList⟩) := by decide +kernel
  obtain ⟨k,element,result,list,item,later,found,place,applied,_,again,settled⟩ :=
    wrap_settles_iff answer reported offered planned
  have other : element.role ≠ some "listitem" := by
    have tab : ∀ element ∈ elements text, element.role ≠ some "listitem" := by decide +kernel
    exact tab element (List.mem_of_getElem? found)
  refine ⟨_,answer,violation,reported,_,offered,_,planned,k,result,later,place,applied,again,?_⟩
  by_contra silent
  exact other (settled.mp fun found member here => silent ⟨found,member,here⟩)

end Rules.RequiredParent

end AccessibleMarkup
