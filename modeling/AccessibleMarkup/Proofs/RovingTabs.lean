import AccessibleMarkup.Proofs.RoleGroups
import AccessibleMarkup.Proofs.TabGroups

/-! The rule on the place of tabs in the order of focus, as a whole. No tab is in two of its groups, so what it
reports at the tabs of a group or where the group stands is about that group; and it reports nothing there exactly
if one tab is the way into the group. -/
namespace AccessibleMarkup

open Text Markup

namespace Rules.TabRovingFocus

variable {doc : Document} {group other : Group} {tab place : Nat} {key : Option Nat}

/-- One tab is the way into the group: the selected one, at the first place, or any if not exactly one is
selected. -/
def IsReachable (doc : Document) (group : Group) : Prop :=
  (∃ active, group.tabs.filter (doc.saysTrue "aria-selected") = [active] ∧
    doc.holdsAt (fun element => element.focusIndex? == some 0) active = true ∧
    ∀ tab ∈ group.tabs, tab ≠ active → doc.holdsAt (·.inFocusOrder) tab = false) ∨
  ((group.tabs.filter (doc.saysTrue "aria-selected")).length ≠ 1 ∧
    (group.tabs.filter (doc.holdsAt (·.inFocusOrder))).length = 1)

theorem judgeTabs_eq_nil_iff (head : RuleHead) (active : Nat) : judgeTabs head doc group active = [] ↔
    doc.holdsAt (fun element => element.focusIndex? == some 0) active = true ∧
      ∀ tab ∈ group.tabs, tab ≠ active → doc.holdsAt (·.inFocusOrder) tab = false := by
  unfold judgeTabs verdictOnTabs
  dsimp only
  split_ifs with first
  · simp [first,List.filter_eq_nil_iff]
  · simp [first]

theorem judgeWhole_eq_nil_iff (head : RuleHead) (selected focusable : List Nat) :
    judgeWhole head doc group selected focusable = [] ↔
      focusable.length ≤ 1 ∧ (selected.length ≠ 1 → focusable.length ≠ 0) := by
  unfold judgeWhole
  dsimp only
  split_ifs with empty several
  · simp only [Bool.and_eq_true,decide_eq_true_eq,bne_iff_ne] at empty
    exact iff_of_false id fun ⟨_,wanted⟩ => wanted empty.2 empty.1
  · exact iff_of_false id fun ⟨few,_⟩ => Nat.not_le_of_lt several few
  · simp only [Bool.and_eq_true,decide_eq_true_eq,bne_iff_ne] at empty
    exact iff_of_true rfl ⟨Nat.le_of_not_lt several,fun uneven zero => empty ⟨zero,uneven⟩⟩

theorem judge_eq_nil_iff (head : RuleHead) (doc : Document) (group : Group) :
    judge head doc group = [] ↔ IsReachable doc group := by
  unfold judge IsReachable
  dsimp only
  rw [List.map_eq_nil_iff,List.append_eq_nil_iff,judgeWhole_eq_nil_iff]
  split
  next active alone =>
    rw [judgeTabs_eq_nil_iff,alone]
    constructor
    · rintro ⟨_,settled⟩
      exact Or.inl ⟨active,rfl,settled⟩
    · rintro (⟨other,same,first,others⟩ | ⟨uneven,_⟩)
      · obtain rfl := List.singleton_inj.mp same
        refine ⟨⟨?_,fun uneven => absurd rfl uneven⟩,first,others⟩
        have chosen : ∀ tab ∈ group.tabs, doc.holdsAt (·.inFocusOrder) tab = true →
            doc.saysTrue "aria-selected" tab = true := by
          intro tab member focusable
          refine (selected_iff alone member).mpr ?_
          by_contra differ
          rw [others tab member differ] at focusable
          contradiction
        calc (group.tabs.filter (doc.holdsAt (·.inFocusOrder))).length
            = group.tabs.countP (doc.holdsAt (·.inFocusOrder)) := List.countP_eq_length_filter.symm
          _ ≤ group.tabs.countP (doc.saysTrue "aria-selected") := List.countP_mono_left chosen
          _ = (group.tabs.filter (doc.saysTrue "aria-selected")).length := List.countP_eq_length_filter
          _ = 1 := by rw [alone]; rfl
      · exact absurd rfl uneven
  next several =>
    have uneven : (group.tabs.filter (doc.saysTrue "aria-selected")).length ≠ 1 := by
      intro one
      obtain ⟨active,alone⟩ := List.length_eq_one_iff.mp one
      exact several active alone
    constructor
    · rintro ⟨⟨few,some⟩,_⟩
      have := some uneven
      exact Or.inr ⟨uneven,by omega⟩
    · rintro (⟨active,alone,_⟩ | ⟨_,one⟩)
      · exact absurd alone (several active)
      · exact ⟨⟨one.le,fun _ => by omega⟩,rfl⟩

theorem judge_places (head : RuleHead) {violation : Violation} (found : violation ∈ judge head doc group) :
    ∃ place ∈ group.anchor :: group.tabs, violation.location = doc.openTagLocation place := by
  obtain ⟨bare,member,rfl⟩ := List.mem_map.mp found
  rcases List.mem_append.mp member with whole | single
  · unfold judgeWhole at whole
    dsimp only at whole
    split_ifs at whole
    · exact ⟨group.anchor,List.mem_cons_self,by rw [List.mem_singleton.mp whole]; rfl⟩
    · exact ⟨group.anchor,List.mem_cons_self,by rw [List.mem_singleton.mp whole]; rfl⟩
    · contradiction
  · split at single
    next active alone =>
      have chosen : active ∈ group.tabs := (List.mem_filter.mp (alone ▸ List.mem_singleton_self active)).1
      have inactive : bare ∈ (group.tabs.filter fun tab => tab != active && doc.holdsAt (·.inFocusOrder) tab).map
          (fun tab => head.violation (doc.openTagLocation tab) "Inactive tab should have tabindex=\"-1\""
            [setTabIndex "-1"]) →
          ∃ place ∈ group.anchor :: group.tabs, bare.location = doc.openTagLocation place := by
        intro member
        obtain ⟨tab,kept,rfl⟩ := List.mem_map.mp member
        exact ⟨tab,List.mem_cons_of_mem _ (List.mem_filter.mp kept).1,rfl⟩
      unfold judgeTabs verdictOnTabs at single
      dsimp only at single
      split_ifs at single
      · exact inactive single
      · rcases List.mem_append.mp single with others | itself
        · exact inactive others
        · exact ⟨active,List.mem_cons_of_mem _ chosen,by rw [List.mem_singleton.mp itself]; rfl⟩
    next => contradiction

def groupFor? (doc : Document) : Option Nat → Option Group
  | none => strayGroup? doc none
  | some i => groupAt? doc i

def keyOf (doc : Document) (tab : Nat) : Option Nat :=
  (doc.nearestWithRole? tab ["tablist"]).or ((doc.elements[tab]?).bind (·.parent))

theorem groups_eq (doc : Document) :
    groups doc = (none :: (List.range doc.elements.length).map some).filterMap (groupFor? doc) := by
  cases stray : strayGroup? doc none <;> simp [groups,groupFor?,stray,Function.comp_def]

theorem holdsAt_and {one two : Element → Bool} {i : Nat} :
    doc.holdsAt (fun element => one element && two element) i = true ↔
      doc.holdsAt one i = true ∧ doc.holdsAt two i = true := by
  rw [Document.holdsAt,Document.holdsAt,Document.holdsAt]
  cases doc.elements[i]? <;> simp

theorem mem_strayTabs {parent : Option Nat} : tab ∈ strayTabs doc parent ↔
    (∃ element, doc.elements[tab]? = some element ∧ element.hasRole "tab" = true ∧ element.detached = false ∧
      element.parent = parent) ∧ doc.nearestWithRole? tab ["tablist"] = none := by
  rw [strayTabs,List.mem_filter,Document.mem_indicesWhere,Document.holdsAt,Option.any_eq_true]
  simp [and_assoc]

theorem strayGroup?_eq_some_iff {parent : Option Nat} : strayGroup? doc parent = some group ↔
    group.tabs = strayTabs doc parent ∧ group.tabs.head? = some group.anchor := by
  obtain ⟨anchor,tabs⟩ := group
  unfold strayGroup?
  split
  next empty =>
    rw [empty]
    refine ⟨fun none => absurd none (by simp),fun ⟨same,first⟩ => ?_⟩
    dsimp only at same first
    rw [same] at first
    contradiction
  next first more listed =>
    rw [listed]
    constructor
    · intro same
      obtain ⟨rfl,rfl⟩ := Group.mk.inj (Option.some.inj same)
      exact ⟨rfl,rfl⟩
    · rintro ⟨same,head⟩
      dsimp only at same head
      rw [same] at head
      rw [same,Option.some.inj head]

theorem groupFor?_cases (found : groupFor? doc key = some group) :
    (∃ tablist, key = some tablist ∧
      doc.holdsAt (fun element => element.hasRole "tablist" && element.isKnown) tablist = true ∧
      group = ⟨tablist,doc.groupMembers tablist ["tab"] ["tablist"]⟩) ∨
    (group.tabs = strayTabs doc key ∧ group.tabs.head? = some group.anchor) := by
  cases key with
  | none => exact Or.inr (strayGroup?_eq_some_iff.mp found)
  | some i =>
    simp only [groupFor?,groupAt?] at found
    split_ifs at found with listed
    · split at found
      · contradiction
      · exact Or.inl ⟨i,rfl,listed,(Option.some.inj found).symm⟩
    · exact Or.inr (strayGroup?_eq_some_iff.mp found)

theorem keyOf_eq (found : groupFor? doc key = some group) (member : tab ∈ group.tabs) : keyOf doc tab = key := by
  rw [keyOf]
  rcases groupFor?_cases found with ⟨tablist,rfl,_,rfl⟩ | ⟨stray,_⟩
  · rw [beq_iff_eq.mp (List.mem_filter.mp member).2,Option.some_or]
  · obtain ⟨⟨element,present,_,_,parent⟩,alone⟩ := mem_strayTabs.mp (stray ▸ member)
    rw [alone,Option.none_or,present,Option.bind_some,parent]

theorem mem_groups : group ∈ groups doc ↔
    ∃ key, (∀ i, key = some i → i < doc.elements.length) ∧ groupFor? doc key = some group := by
  rw [groups_eq,List.mem_filterMap]
  refine exists_congr fun key => and_congr_left fun _ => ?_
  cases key <;> simp

theorem nodup_groups (doc : Document) : ((groups doc).flatMap (·.tabs)).Nodup := by
  rw [List.nodup_flatMap,groups_eq,List.pairwise_filterMap]
  constructor
  · intro group member
    obtain ⟨key,_,found⟩ := List.mem_filterMap.mp member
    rcases groupFor?_cases found with ⟨tablist,_,_,rfl⟩ | ⟨stray,_⟩
    · exact Document.groupMembers_rising.nodup
    · rw [stray]
      exact (Document.indicesWhere_rising.filter _).nodup
  · have keys : (none :: (List.range doc.elements.length).map some).Nodup :=
      List.nodup_cons.mpr ⟨by simp,List.nodup_range.map (Option.some_injective Nat)⟩
    refine keys.imp fun differ one first two second tab inFirst inSecond => differ ?_
    exact (keyOf_eq first inFirst).symm.trans (keyOf_eq second inSecond)

theorem key_of_place (listed : group ∈ groups doc) (member : place ∈ group.anchor :: group.tabs) :
    ∃ key, groupFor? doc key = some group ∧
      ((keyOf doc place = key ∧ doc.holdsAt (·.hasRole "tab") place = true) ∨
        (some place = key ∧ doc.holdsAt (·.hasRole "tablist") place = true)) := by
  obtain ⟨key,_,found⟩ := mem_groups.mp listed
  have asTab (inside : place ∈ group.tabs) : keyOf doc place = key ∧ doc.holdsAt (·.hasRole "tab") place = true :=
    ⟨keyOf_eq found inside,isTab_of_groups listed place inside⟩
  refine ⟨key,found,?_⟩
  rcases List.mem_cons.mp member with rfl | inside
  · rcases groupFor?_cases found with ⟨tablist,same,listing,rfl⟩ | ⟨_,first⟩
    · exact Or.inr ⟨same.symm,(holdsAt_and.mp listing).1⟩
    · exact Or.inl (asTab (List.mem_of_mem_head? first))
  · exact Or.inl (asTab inside)

theorem group_of_place (first : group ∈ groups doc) (second : other ∈ groups doc)
    (inFirst : place ∈ group.anchor :: group.tabs) (inSecond : place ∈ other.anchor :: other.tabs) : group = other := by
  have apart (tab : doc.holdsAt (·.hasRole "tab") place = true)
      (tablist : doc.holdsAt (·.hasRole "tablist") place = true) : False := by
    obtain ⟨element,present,role⟩ := doc.holdsAt_some _ _ tab
    rw [Document.holdsAt,present] at tablist
    exact absurd ((beq_iff_eq.mp role).symm.trans (beq_iff_eq.mp tablist)) (by decide)
  obtain ⟨key,found,here⟩ := key_of_place first inFirst
  obtain ⟨also,present,there⟩ := key_of_place second inSecond
  have same : key = also := by
    rcases here with ⟨here,tab⟩ | ⟨here,tablist⟩
    · rcases there with ⟨there,_⟩ | ⟨_,tablist⟩
      · exact here.symm.trans there
      · exact (apart tab tablist).elim
    · rcases there with ⟨_,tab⟩ | ⟨there,_⟩
      · exact (apart tab tablist).elim
      · exact here.symm.trans there
  rw [same,present] at found
  exact (Option.some.inj found).symm

theorem silent_iff_judge (head : RuleHead) {source : List Char} {filter : Filter}
    (listed : group ∈ groups (Document.read source filter))
    (certain : group.tabs.any (isUncertain (Document.read source filter)) = false) :
    (∀ violation ∈ check head (Document.read source filter), ∀ place ∈ group.anchor :: group.tabs,
      violation.location ≠ (Document.read source filter).openTagLocation place) ↔
        judge head (Document.read source filter) group = [] := by
  constructor
  · intro silent
    refine List.eq_nil_iff_forall_not_mem.mpr fun violation found => ?_
    obtain ⟨place,inside,location⟩ := judge_places head found
    refine silent violation (List.mem_flatMap.mpr ⟨group,List.mem_filter.mpr ⟨listed,?_⟩,found⟩) place inside location
    rw [certain]
    rfl
  · intro nothing violation reported place inside location
    obtain ⟨other,kept,found⟩ := List.mem_flatMap.mp reported
    have also := (List.mem_filter.mp kept).1
    obtain ⟨its,within,stands⟩ := judge_places head found
    have bound {group : Group} {place : Nat} (listed : group ∈ groups (Document.read source filter))
        (inside : place ∈ group.anchor :: group.tabs) : place < (Document.read source filter).elements.length := by
      rcases List.mem_cons.mp inside with rfl | member
      · exact anchor_of_groups _ listed
      · exact lt_of_groups listed member
    obtain rfl := Document.openTagLocation_injective (bound listed inside) (bound also within) (location.symm.trans stands)
    obtain rfl := group_of_place listed also inside within
    rw [nothing] at found
    exact absurd found List.not_mem_nil

/-- The group is that of the innermost list of tabs around the tab, whose end is known, or the tabs without such a
list that stand in the same element, in which nothing was cut off before. -/
def Gathers (doc : Document) (tab : Nat) (group : Group) : Prop :=
  (∃ tablist, doc.IsNearest ["tablist"] tab tablist ∧ doc.holdsAt (·.isKnown) tablist = true ∧
    group = ⟨tablist,doc.groupMembers tablist ["tab"] ["tablist"]⟩) ∨
  ((∀ outer ∈ doc.ancestors tab, doc.holdsAt (·.hasRole "tablist") outer = false) ∧
    doc.holdsAt (·.detached) tab = false ∧
    group.tabs = strayTabs doc ((doc.elements[tab]?).bind (·.parent)) ∧ group.tabs.head? = some group.anchor)

theorem group_of_nearest {source : List Char} {filter : Filter} {tablist : Nat}
    (role : (Document.read source filter).holdsAt (·.hasRole "tab") tab = true)
    (nearest : (Document.read source filter).IsNearest ["tablist"] tab tablist)
    (known : (Document.read source filter).holdsAt (·.isKnown) tablist = true) :
    let tabs := (Document.read source filter).groupMembers tablist ["tab"] ["tablist"]
    Group.mk tablist tabs ∈ groups (Document.read source filter) ∧ tab ∈ tabs := by
  intro tabs
  have member : tab ∈ tabs :=
    Document.mem_groupMembers.mpr ⟨by rw [Element.hasRoleIn_singleton]; exact role,nearest⟩
  have listing : (Document.read source filter).holdsAt
      (fun element => element.hasRole "tablist" && element.isKnown) tablist = true := by
    have list := nearest.role
    rw [Element.hasRoleIn_singleton] at list
    exact holdsAt_and.mpr ⟨list,known⟩
  refine ⟨mem_groups.mpr ⟨some tablist,fun i same => ?_,?_⟩,member⟩
  · obtain ⟨element,present,_⟩ := Document.holdsAt_some _ _ _ known
    exact Option.some.inj same ▸ (List.getElem?_eq_some_iff.mp present).1
  · rw [groupFor?,groupAt?,if_pos listing]
    split
    next empty => exact absurd member (List.eq_nil_iff_forall_not_mem.mp empty tab)
    next => rfl

theorem group_of_stray {source : List Char} {filter : Filter}
    (role : (Document.read source filter).holdsAt (·.hasRole "tab") tab = true)
    (alone : ∀ outer ∈ (Document.read source filter).ancestors tab,
      (Document.read source filter).holdsAt (·.hasRole "tablist") outer = false)
    (settled : (Document.read source filter).holdsAt (·.detached) tab = false)
    (stray : group.tabs = strayTabs (Document.read source filter)
      (((Document.read source filter).elements[tab]?).bind (·.parent)))
    (first : group.tabs.head? = some group.anchor) :
    group ∈ groups (Document.read source filter) ∧ tab ∈ group.tabs := by
  obtain ⟨element,present,named⟩ := Document.holdsAt_some _ _ _ role
  rw [Document.holdsAt,present] at settled
  rw [present,Option.bind_some] at stray
  have member : tab ∈ strayTabs (Document.read source filter) element.parent :=
    mem_strayTabs.mpr ⟨⟨element,present,named,settled,rfl⟩,Document.nearestWithRole?_eq_none_iff.mpr alone⟩
  refine ⟨mem_groups.mpr ⟨element.parent,fun i link => ?_,?_⟩,stray ▸ member⟩
  · exact (Document.read_linked source filter).lt_of_parent (by rw [present]; exact link)
  · have found := strayGroup?_eq_some_iff.mpr ⟨stray,first⟩
    cases parent : element.parent with
    | none => rwa [parent] at found
    | some outer =>
      have around : outer ∈ (Document.read source filter).ancestors tab := by
        have link : parentAt (outlineNodes (filter.apply source)) tab = some outer := by
          rw [Document.parentAt_eq,present]
          exact parent
        rw [Document.ancestors_of_link link]
        exact List.mem_cons_self
      -- The parent is no list of tabs, so the group at it is that of stray tabs.
      rw [groupFor?,groupAt?,if_neg fun listing => ?_,← parent,found]
      exact absurd ((alone outer around).symm.trans (holdsAt_and.mp listing).1) (by decide)

theorem mem_groups_iff_gathers {source : List Char} {filter : Filter}
    (role : (Document.read source filter).holdsAt (·.hasRole "tab") tab = true) :
    group ∈ groups (Document.read source filter) ∧ tab ∈ group.tabs ↔ Gathers (Document.read source filter) tab group := by
  constructor
  · rintro ⟨listed,member⟩
    obtain ⟨key,_,found⟩ := mem_groups.mp listed
    rcases groupFor?_cases found with ⟨tablist,_,listing,rfl⟩ | ⟨stray,first⟩
    · exact Or.inl ⟨tablist,(Document.mem_groupMembers.mp member).2,(holdsAt_and.mp listing).2,rfl⟩
    · obtain ⟨⟨element,present,_,settled,parent⟩,alone⟩ := mem_strayTabs.mp (stray ▸ member)
      refine Or.inr ⟨Document.nearestWithRole?_eq_none_iff.mp alone,?_,?_,first⟩
      · rw [Document.holdsAt,present]
        exact settled
      · rw [present,Option.bind_some,parent]
        exact stray
  · rintro (⟨tablist,nearest,known,rfl⟩ | ⟨alone,settled,stray,first⟩)
    · exact group_of_nearest role nearest known
    · exact group_of_stray role alone settled stray first

/-- Each tab is in one group at most, that of the innermost list of tabs around it, or that of the element it stands
in. About a group that no template decides, the rule reports nothing exactly if one tab is the way into it. -/
theorem silent_iff_reachable (head : RuleHead) (source : List Char) (filter : Filter) :
    let doc := Document.read source filter
    ∃ groups found, fetchGroups doc = some groups ∧ run head doc = some found ∧
      (groups.flatMap (·.tabs)).Nodup ∧
      (∀ tab group, doc.holdsAt (·.hasRole "tab") tab = true →
        (group ∈ groups ∧ tab ∈ group.tabs ↔ Gathers doc tab group)) ∧
      ∀ group ∈ groups, group.tabs.any (doc.holdsAt isLeftOpen) = false →
        ((∀ violation ∈ found, ∀ place ∈ group.anchor :: group.tabs,
          violation.location ≠ doc.openTagLocation place) ↔ IsReachable doc group) := by
  intro doc
  have linked : doc.Linked := Document.read_linked source filter
  refine ⟨_,_,fetchGroups_eq linked,run_eq linked head,nodup_groups doc,fun tab group role =>
    mem_groups_iff_gathers role,fun group listed certain => ?_⟩
  rw [isUncertain_eq] at certain
  rw [silent_iff_judge head listed certain,judge_eq_nil_iff]

theorem silent_iff_reachable_stray :
    let doc := Document.read "<b role=\"tab\" tabindex=\"0\">a</b><b role=\"tab\">b</b>".toList
    ∃ found, run rule.toRuleHead doc = some found ∧ Gathers doc 1 ⟨0,[0,1]⟩ ∧
      ∀ violation ∈ found, ∀ place ∈ [0,0,1], violation.location ≠ doc.openTagLocation place := by
  intro doc
  have formed : fetchGroups doc = some [⟨0,[0,1]⟩] := by decide +kernel
  obtain ⟨groups,found,made,answer,_,gathers,silent⟩ := silent_iff_reachable rule.toRuleHead _ Filter.keep
  obtain rfl := Option.some.inj (formed.symm.trans made)
  refine ⟨found,answer,(gathers 1 ⟨0,[0,1]⟩ (by decide +kernel)).mp ⟨by simp,by decide⟩,?_⟩
  exact (silent ⟨0,[0,1]⟩ (by simp) (by decide +kernel)).mpr (Or.inr ⟨by decide +kernel,by decide +kernel⟩)

end Rules.TabRovingFocus

end AccessibleMarkup
