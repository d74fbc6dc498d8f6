import AccessibleMarkup.Proofs.DocumentTraits
import AccessibleMarkup.Proofs.LoneRules
import AccessibleMarkup.Proofs.NormalizedValues
import AccessibleMarkup.Proofs.TabPlaces

/-! Groups of tabs and what the rule on their place in the order of focus asks for. Groups are formed by roles
and by the structure of the document alone, and of a group that is judged exactly the tabs that have another
place than they should have get a fix. -/
namespace AccessibleMarkup

open Text Markup

namespace Markup

theorem Element.traits_eq {first second : Element} (role : first.role = second.role)
    (same : first.profile = { second.profile with attributes := first.profile.attributes }) :
    first.traits = second.traits := by
  have known : first.extent = second.extent := congrArg Profile.extent same
  have parent : first.parent = second.parent := congrArg Profile.parent same
  have depth : first.depth = second.depth := congrArg Profile.depth same
  have detached : first.detached = second.detached := congrArg Profile.detached same
  rw [traits,traits,isKnown,isKnown,role,known,parent,depth,detached]

end Markup

namespace Rules.TabRovingFocus

variable {doc other : Document}

theorem groups_congr (same : other.elements.map Element.traits = doc.elements.map Element.traits) :
    groups other = groups doc := by
  have size : other.elements.length = doc.elements.length := by simpa using congrArg List.length same
  have stray (parent : Option Nat) : strayGroup? other parent = strayGroup? doc parent := by
    have tabs := Document.indicesWhere_congr same
      fun traits => traits.role == some "tab" && !traits.detached && traits.parent == parent
    have alone : (fun tab => (other.nearestWithRole? tab ["tablist"]).isNone) =
        fun tab => (doc.nearestWithRole? tab ["tablist"]).isNone :=
      funext fun tab => by rw [Document.nearestWithRole?_congr same]
    have equal : strayTabs other parent = strayTabs doc parent := by
      unfold strayTabs
      rw [alone]
      exact congrArg (List.filter _) tabs
    rw [strayGroup?,strayGroup?,equal]
  have at_ : groupAt? other = groupAt? doc := by
    funext i
    have listed := Document.holdsAt_congr same (fun traits => traits.role == some "tablist" && traits.known) i
    have listed' : other.holdsAt (fun element => element.hasRole "tablist" && element.isKnown) i =
        doc.holdsAt (fun element => element.hasRole "tablist" && element.isKnown) i := listed
    rw [groupAt?,groupAt?,listed',Document.groupMembers_congr same,stray]
  rw [groups,groups,stray,size,at_]

/-- Whether the tabs of a group are judged one by one: no template decides about them, and one is selected. -/
def isJudged (doc : Document) (group : Group) : Bool :=
  !group.tabs.any (isUncertain doc) && (group.tabs.filter (doc.saysTrue "aria-selected")).length == 1

def demands (doc : Document) (tab : Nat) : Bool :=
  (groups doc).any (fun group => isJudged doc group && group.tabs.contains tab) && isMisplaced doc tab

theorem check_fixes (head : RuleHead) (doc : Document) (fix : Fix) (location : Location) :
    (∃ violation ∈ check head doc, fix ∈ violation.fixes ∧ violation.location = location) ↔
      ∃ tab, demands doc tab = true ∧ fix = .setAttribute "tabindex" (placeOf doc tab) ∧
        location = doc.openTagLocation tab := by
  constructor
  · rintro ⟨violation,member,offered⟩
    obtain ⟨group,kept,judged⟩ := List.mem_flatMap.mp member
    obtain ⟨listed,certain⟩ := List.mem_filter.mp kept
    obtain ⟨one,tab,inside,misplaced,rest⟩ := (judge_fixes head group fix location).mp ⟨violation,judged,offered⟩
    refine ⟨tab,?_,rest⟩
    rw [demands,misplaced,Bool.and_true]
    exact List.any_eq_true.mpr ⟨group,listed,by simp [isJudged,certain,one,inside]⟩
  · rintro ⟨tab,wanted,rest⟩
    obtain ⟨among,misplaced⟩ := Bool.and_eq_true_iff.mp wanted
    obtain ⟨group,listed,holds⟩ := List.any_eq_true.mp among
    simp only [isJudged,Bool.and_eq_true,beq_iff_eq,List.contains_iff_mem] at holds
    obtain ⟨⟨certain,one⟩,inside⟩ := holds
    obtain ⟨violation,judged,offered⟩ :=
      (judge_fixes head group fix location).mpr ⟨one,tab,inside,misplaced,rest⟩
    exact ⟨violation,List.mem_flatMap.mpr ⟨group,List.mem_filter.mpr ⟨listed,certain⟩,judged⟩,offered⟩

theorem isTab_of_groups {group : Group} (member : group ∈ groups doc) :
    ∀ tab ∈ group.tabs, doc.holdsAt (·.hasRole "tab") tab = true := by
  have stray {parent : Option Nat} (found : strayGroup? doc parent = some group) :
      ∀ tab ∈ group.tabs, doc.holdsAt (·.hasRole "tab") tab = true := by
    have tabs : ∀ tab ∈ strayTabs doc parent, doc.holdsAt (·.hasRole "tab") tab = true := by
      intro tab member
      obtain ⟨⟨element,i⟩,kept,rfl⟩ := List.mem_map.mp (List.mem_filter.mp member).1
      obtain ⟨entry,holds⟩ := List.mem_filter.mp kept
      have present := doc.mem_indexed element i entry
      simp only [Bool.and_eq_true] at holds
      rw [Document.holdsAt,present]
      exact holds.1.1
    unfold strayGroup? at found
    split at found
    · contradiction
    next first more listed =>
      obtain rfl := Option.some.inj found
      rwa [listed] at tabs
  rcases List.mem_append.mp member with outermost | nested
  · exact stray (Option.mem_toList.mp outermost)
  · obtain ⟨i,_,found⟩ := List.mem_filterMap.mp nested
    unfold groupAt? at found
    split_ifs at found
    · split at found
      · contradiction
      · obtain rfl := Option.some.inj found
        intro tab member
        have holds := (List.mem_filter.mp (List.mem_filter.mp member).1).2
        obtain ⟨element,present,role⟩ := doc.holdsAt_some _ _ holds
        rw [Document.holdsAt,present]
        rw [Element.hasRoleIn,Option.any_eq_true] at role
        obtain ⟨named,written,listed⟩ := role
        obtain rfl : named = "tab" := by simpa using listed
        simp [Element.hasRole,written]
    · exact stray found

theorem isTab_of_demands {tab : Nat} (wanted : demands doc tab = true) :
    doc.holdsAt (·.hasRole "tab") tab = true := by
  obtain ⟨among,_⟩ := Bool.and_eq_true_iff.mp wanted
  obtain ⟨group,listed,holds⟩ := List.any_eq_true.mp among
  simp only [Bool.and_eq_true,List.contains_iff_mem] at holds
  exact isTab_of_groups listed tab holds.2

theorem isMisplaced_of_value {tab : Nat} {element : Element} (found : doc.elements[tab]? = some element)
    (placed : element.value? "tabindex" = some (placeOf doc tab)) : isMisplaced doc tab = false := by
  rw [placeOf] at placed
  rw [isMisplaced,Document.holdsAt,Document.holdsAt,found]
  split_ifs at placed ⊢
  · have index : element.focusIndex? = some 0 := by
      rw [Element.focusIndex?,Element.tabIndex?,placed]
      rfl
    simp [index]
  · have index : element.focusIndex? = some (-1) := by
      rw [Element.focusIndex?,Element.tabIndex?,placed]
      rfl
    simp [Element.inFocusOrder,index]

/-- Where no tab is to get another place, every judged group is settled: the selected tab has the first place,
and no other has one. -/
theorem settled_of_demands (settled : ∀ tab, demands doc tab = false) (group : Group) (listed : group ∈ groups doc)
    (certain : group.tabs.any (isUncertain doc) = false) (active : Nat)
    (alone : group.tabs.filter (doc.saysTrue "aria-selected") = [active]) :
    doc.holdsAt (fun element => element.focusIndex? == some 0) active = true ∧
      ∀ tab ∈ group.tabs, tab ≠ active → doc.holdsAt (·.inFocusOrder) tab = false := by
  have placed (tab : Nat) (inside : tab ∈ group.tabs) : isMisplaced doc tab = false := by
    have among : (groups doc).any (fun group => isJudged doc group && group.tabs.contains tab) = true :=
      List.any_eq_true.mpr ⟨group,listed,by simp [isJudged,certain,alone,inside]⟩
    have nothing := settled tab
    rwa [demands,among,Bool.true_and] at nothing
  have chosen : active ∈ group.tabs ∧ doc.saysTrue "aria-selected" active = true := by
    rw [← List.mem_filter,alone]
    exact List.mem_singleton_self _
  constructor
  · have here := placed active chosen.1
    rw [isMisplaced,if_pos chosen.2] at here
    simpa using here
  · intro tab inside other
    have here := placed tab inside
    rwa [isMisplaced,if_neg fun selected => other ((selected_iff alone inside).mp selected)] at here

end Rules.TabRovingFocus

end AccessibleMarkup
