import AccessibleMarkup.Proofs.FaultlessRules
import Mathlib.Tactic.SplitIfs

/-! The places of the tabs of one group in the order of focus. Where one tab is selected, exactly the tabs that
have another place than they should have get a fix, and where none or several are, no tab does. -/
namespace AccessibleMarkup.Rules.TabRovingFocus

open Markup

variable {doc : Document}

def isMisplaced (doc : Document) (tab : Nat) : Bool :=
  if doc.saysTrue "aria-selected" tab then !doc.holdsAt (fun element => element.focusIndex? == some 0) tab
  else doc.holdsAt (·.inFocusOrder) tab

def placeOf (doc : Document) (tab : Nat) : String := if doc.saysTrue "aria-selected" tab then "0" else "-1"

theorem selected_iff {group : Group} {active : Nat}
    (alone : group.tabs.filter (doc.saysTrue "aria-selected") = [active]) {tab : Nat} (member : tab ∈ group.tabs) :
    doc.saysTrue "aria-selected" tab = true ↔ tab = active := by
  have same : tab ∈ group.tabs.filter (doc.saysTrue "aria-selected") ↔ tab ∈ [active] := by rw [alone]
  rw [List.mem_filter,List.mem_singleton] at same
  exact ⟨fun selected => same.mp ⟨member,selected⟩,fun here => (same.mpr here).2⟩

theorem inactive_place {group : Group} {active : Nat}
    (alone : group.tabs.filter (doc.saysTrue "aria-selected") = [active]) {tab : Nat} (member : tab ∈ group.tabs)
    (other : tab ≠ active) : isMisplaced doc tab = doc.holdsAt (·.inFocusOrder) tab ∧ placeOf doc tab = "-1" := by
  have idle : doc.saysTrue "aria-selected" tab = false :=
    Bool.eq_false_iff.mpr fun selected => other ((selected_iff alone member).mp selected)
  exact ⟨by rw [isMisplaced,idle]; rfl,by rw [placeOf,idle]; rfl⟩

theorem active_place {active : Nat} (selected : doc.saysTrue "aria-selected" active = true) :
    isMisplaced doc active = (!doc.holdsAt (fun element => element.focusIndex? == some 0) active) ∧
      placeOf doc active = "0" :=
  ⟨by rw [isMisplaced,selected]; rfl,by rw [placeOf,selected]; rfl⟩

theorem setTabIndex_offered (head : RuleHead) (tab : Nat) (message value : String) (fix : Fix) (location : Location) :
    (fix ∈ (head.violation (doc.openTagLocation tab) message [setTabIndex value]).fixes ∧
      (head.violation (doc.openTagLocation tab) message [setTabIndex value]).location = location) ↔
      fix = .setAttribute "tabindex" value ∧ location = doc.openTagLocation tab := by
  simp [RuleHead.violation,Violation.fixes,setTabIndex,eq_comm]

theorem inactive_fixes (head : RuleHead) {group : Group} {active : Nat}
    (alone : group.tabs.filter (doc.saysTrue "aria-selected") = [active]) (fix : Fix) (location : Location) :
    (∃ violation ∈ (group.tabs.filter fun tab => tab != active && doc.holdsAt (·.inFocusOrder) tab).map
        (fun tab => head.violation (doc.openTagLocation tab) "Inactive tab should have tabindex=\"-1\""
          [setTabIndex "-1"]), fix ∈ violation.fixes ∧ violation.location = location) ↔
      ∃ tab ∈ group.tabs, tab ≠ active ∧ isMisplaced doc tab = true ∧
        fix = .setAttribute "tabindex" (placeOf doc tab) ∧ location = doc.openTagLocation tab := by
  constructor
  · rintro ⟨_,member,offered⟩
    obtain ⟨tab,kept,rfl⟩ := List.mem_map.mp member
    obtain ⟨inside,wanted⟩ := List.mem_filter.mp kept
    obtain ⟨other,focusable⟩ : tab ≠ active ∧ doc.holdsAt (·.inFocusOrder) tab = true := by simpa using wanted
    obtain ⟨misplaced,place⟩ := inactive_place alone inside other
    rw [setTabIndex_offered,← place] at offered
    exact ⟨tab,inside,other,misplaced.trans focusable,offered⟩
  · rintro ⟨tab,inside,other,misplaced,offered⟩
    obtain ⟨same,place⟩ := inactive_place alone inside other
    rw [place,← setTabIndex_offered head tab "Inactive tab should have tabindex=\"-1\"" "-1"] at offered
    refine ⟨_,List.mem_map_of_mem (List.mem_filter.mpr ⟨inside,?_⟩),offered⟩
    rw [same] at misplaced
    simpa using ⟨other,misplaced⟩

theorem judgeTabs_fixes (head : RuleHead) {group : Group} {active : Nat}
    (alone : group.tabs.filter (doc.saysTrue "aria-selected") = [active]) (fix : Fix) (location : Location) :
    (∃ violation ∈ judgeTabs head doc group active, fix ∈ violation.fixes ∧ violation.location = location) ↔
      ∃ tab ∈ group.tabs, isMisplaced doc tab = true ∧ fix = .setAttribute "tabindex" (placeOf doc tab) ∧
        location = doc.openTagLocation tab := by
  have chosen : active ∈ group.tabs ∧ doc.saysTrue "aria-selected" active = true := by
    rw [← List.mem_filter,alone]
    exact List.mem_singleton_self _
  have on := active_place chosen.2
  have inactive := inactive_fixes head alone fix location
  unfold judgeTabs verdictOnTabs
  dsimp only
  split_ifs with settled
  · rw [inactive]
    constructor
    · rintro ⟨tab,inside,_,rest⟩
      exact ⟨tab,inside,rest⟩
    · rintro ⟨tab,inside,misplaced,rest⟩
      refine ⟨tab,inside,?_,misplaced,rest⟩
      rintro rfl
      rw [on.1,settled] at misplaced
      contradiction
  · constructor
    · rintro ⟨violation,member,offered⟩
      rcases List.mem_append.mp member with some | last
      · obtain ⟨tab,inside,_,rest⟩ := inactive.mp ⟨violation,some,offered⟩
        exact ⟨tab,inside,rest⟩
      · obtain rfl := List.mem_singleton.mp last
        rw [setTabIndex_offered,← on.2] at offered
        exact ⟨active,chosen.1,by rw [on.1,Bool.eq_false_iff.mpr settled]; rfl,offered⟩
    · rintro ⟨tab,inside,misplaced,rest⟩
      by_cases same : tab = active
      · subst same
        rw [on.2,← setTabIndex_offered head tab "Selected tab should have tabindex=\"0\"" "0"] at rest
        exact ⟨_,List.mem_append_right _ (List.mem_singleton_self _),rest⟩
      · obtain ⟨violation,member,offered⟩ := inactive.mpr ⟨tab,inside,same,misplaced,rest⟩
        exact ⟨violation,List.mem_append_left _ member,offered⟩

theorem judgeWhole_fixes (head : RuleHead) (group : Group) (selected focusable : List Nat) :
    ∀ violation ∈ judgeWhole head doc group selected focusable, violation.fixes = [] := by
  intro violation member
  unfold judgeWhole at member
  dsimp only at member
  split_ifs at member
  · rw [List.mem_singleton.mp member]
    rfl
  · rw [List.mem_singleton.mp member]
    rfl
  · contradiction

theorem judge_fixes (head : RuleHead) (group : Group) (fix : Fix) (location : Location) :
    (∃ violation ∈ judge head doc group, fix ∈ violation.fixes ∧ violation.location = location) ↔
      (group.tabs.filter (doc.saysTrue "aria-selected")).length = 1 ∧
        ∃ tab ∈ group.tabs, isMisplaced doc tab = true ∧ fix = .setAttribute "tabindex" (placeOf doc tab) ∧
          location = doc.openTagLocation tab := by
  constructor
  · rintro ⟨_,member,fixes,place⟩
    obtain ⟨violation,found,rfl⟩ := List.mem_map.mp member
    rcases List.mem_append.mp found with whole | ofTabs
    · have none := judgeWhole_fixes head group _ _ violation whole
      rw [Violation.fixes] at none fixes
      rw [none] at fixes
      contradiction
    · split at ofTabs
      next active alone =>
        exact ⟨by rw [alone]; rfl,(judgeTabs_fixes head alone fix location).mp ⟨violation,ofTabs,fixes,place⟩⟩
      next => contradiction
  · rintro ⟨one,offered⟩
    obtain ⟨active,alone⟩ := List.length_eq_one_iff.mp one
    obtain ⟨violation,member,fixes,place⟩ := (judgeTabs_fixes head alone fix location).mpr offered
    refine ⟨{ violation with docRef := some docRef },List.mem_map.mpr ⟨violation,?_,rfl⟩,fixes,place⟩
    rw [alone]
    exact List.mem_append_right _ member

end AccessibleMarkup.Rules.TabRovingFocus
