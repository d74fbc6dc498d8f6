import AccessibleMarkup.Proofs.LinkedDocuments
import AccessibleMarkup.Rules.Catalogue
import Mathlib.Data.List.Basic

/-! What the rules find in a document whose links lead to its elements. No read by index is a fault there, so
what a rule finds is given by plain functions; `Rules.faultless` says so for all rules. -/
namespace AccessibleMarkup

open Markup

theorem Markup.Element.hasRoleIn_singleton (role : String) : (fun element : Element => element.hasRoleIn [role]) =
    fun element => element.hasRole role := by
  funext element
  rw [Bool.eq_iff_iff]
  simp [Element.hasRoleIn,Element.hasRole,Option.any_eq_true]

namespace Document

/-- Whether an attribute of the element of an index says `true`. -/
def saysTrue (doc : Document) (name : String) (i : Nat) : Bool :=
  doc.holdsAt (fun element => isTrue (element.value? name)) i

def isMadeByTemplate (doc : Document) (name : String) (i : Nat) : Bool :=
  doc.holdsAt (fun element => isDynamicValue (element.value? name)) i

def knownWithRole (doc : Document) (role : String) : List Nat :=
  doc.indicesWhere fun element => element.hasRole role && element.isKnown

theorem fetchKnown_eq (doc : Document) (role : String) : doc.fetchKnown role = some (doc.knownWithRole role) :=
  doc.filterM_withRole role (·.isKnown)

end Document

namespace Rules

open Document

variable {doc : Document}

theorem first_of_lookup {table : List (String × List String)} (filled : ∀ entry ∈ table, entry.2 ≠ [])
    {key : String} {values : List String} (listed : table.lookup key = some values) :
    values[0]? = some (values.headD "") := by
  obtain ⟨before,after,parts,_⟩ := List.lookup_eq_some_iff.mp listed
  obtain ⟨first,rest,rfl⟩ := List.exists_cons_of_ne_nil (filled (key,values) (by simp [parts]))
  rfl

namespace TablistSelection

def judge? (head : RuleHead) (doc : Document) (tablist : Nat) : Option Violation :=
  let tabs := doc.groupMembers tablist ["tab"] ["tablist"]
  if tabs.isEmpty || tabs.any (doc.isMadeByTemplate "aria-selected") then none
  else verdict? head doc tablist tabs (tabs.filter (doc.saysTrue "aria-selected"))

def check (head : RuleHead) (doc : Document) : List Violation :=
  (doc.knownWithRole "tablist").filterMap (judge? head doc)

theorem run_eq (linked : doc.Linked) (head : RuleHead) : run head doc = some (check head doc) := by
  rw [run,fetchKnown_eq]
  refine Checked.filterMapM_eq fun tablist _ => ?_
  have inside : ∀ tab ∈ doc.groupMembers tablist ["tab"] ["tablist"], tab < doc.elements.length :=
    fun _ => lt_of_groupMembers
  simp only [runOn,judge?,linked.fetchMembers_eq,anyM_meets inside,filterM_meets inside,bind,Option.bind_some,
    pure,← apply_ite some,Bool.or_eq_true,ite_or]
  rfl

end TablistSelection

namespace DuplicateId

/-- The violation of a later element with an identifier that the index gives to an earlier one. -/
def judge? (head : RuleHead) (doc : Document) (id : String) (i : Nat) : Option Violation :=
  (doc.resolve? id).map fun (first,_) => report head doc id first i

def check (head : RuleHead) (doc : Document) : List Violation :=
  (doc.index.duplicates.filter fun entry => !isDynamic entry.1).filterMap fun (id,i) => judge? head doc id i

theorem run_eq (linked : doc.Linked) (head : RuleHead) : run head doc = some (check head doc) := by
  refine Checked.filterMapM_eq fun (id,i) _ => ?_
  dsimp only
  rw [linked.fetchOwner_eq]
  rfl

end DuplicateId

namespace PanelVisibility

def judge? (head : RuleHead) (doc : Document) (reference : Reference) : Option Violation := do
  if reference.dynamic then none
  let controller ← doc.elements[reference.source]?
  let state ← state? controller
  let (i,panel) ← doc.resolve? reference.target
  verdict? head doc reference state i panel

def check (head : RuleHead) (doc : Document) : List Violation :=
  (doc.index.ofKind .controls).filterMap (judge? head doc)

theorem run_eq (linked : doc.Linked) (head : RuleHead) : run head doc = some (check head doc) := by
  refine Checked.filterMapM_eq fun reference member => ?_
  have inside := linked.lt_of_reference (List.mem_filter.mp member).1
  rw [runOn,judge?,linked.fetchOwner_eq,fetch,List.getElem?_eq_getElem inside]
  cases reference.dynamic with
  | true => rfl
  | false =>
    simp only [bind,Option.bind_some]
    cases state? doc.elements[reference.source] with
    | none => rfl
    | some state => cases doc.resolve? reference.target <;> rfl

end PanelVisibility

namespace RequiredChildren

def ownsItem (doc : Document) (container : Nat) (items : List String) : Bool :=
  (doc.descendants container).any (doc.holdsAt (·.hasRoleIn items)) ||
    (doc.index.targetsOf container .owns).any fun id =>
      (doc.resolve? id).any fun found => found.2.hasRoleIn items

def isSettled (doc : Document) (container : Nat) (element : Element) : Bool :=
  element.isKnown && !isTrue (element.value? "aria-busy") &&
    (doc.descendants container).all (doc.holdsAt (·.isKnown)) &&
    !isTemplated ((element.content? doc.text).getD [])

def judge? (head : RuleHead) (doc : Document) (entry : Element × Nat) : Option Violation := do
  let (element,i) := entry
  let (role,items) ← container? element
  if !isSettled doc i element || ownsItem doc i items then none
  else report head doc i role items (items.headD "")

def check (head : RuleHead) (doc : Document) : List Violation :=
  doc.indexed.filterMap (judge? head doc)

theorem fetchOwnsItem_eq (linked : doc.Linked) (container : Nat) (items : List String) :
    fetchOwnsItem doc container items = some (ownsItem doc container items) := by
  have owned := @Checked.anyM_eq _ (doc.index.targetsOf container .owns)
    (fun id => do return (← doc.fetchOwner id).any fun found => found.2.hasRoleIn items)
    (fun id => (doc.resolve? id).any fun found => found.2.hasRoleIn items)
    fun id _ => by rw [linked.fetchOwner_eq]; rfl
  rw [fetchOwnsItem,ownsItem,anyM_meets fun _ => lt_of_descendants,owned]
  cases (doc.descendants container).any (doc.holdsAt (·.hasRoleIn items)) <;> rfl

theorem fetchIsSettled_eq (doc : Document) (container : Nat) (element : Element) :
    fetchIsSettled doc container element = some (isSettled doc container element) := by
  have every : (doc.descendants container).any (doc.holdsAt (!·.isKnown)) =
      !(doc.descendants container).all (doc.holdsAt (·.isKnown)) := by
    rw [Bool.eq_iff_iff,List.any_eq_true,Bool.not_eq_true',List.all_eq_false]
    refine exists_congr fun i => and_congr_right fun descends => ?_
    simp [holdsAt,List.getElem?_eq_getElem (lt_of_descendants descends)]
  rw [fetchIsSettled,isSettled,anyM_meets fun _ => lt_of_descendants,every]
  cases element.isKnown
  · rfl
  · cases isTrue (element.value? "aria-busy")
    · cases (doc.descendants container).all (doc.holdsAt (·.isKnown)) <;> rfl
    · rfl

theorem run_eq (linked : doc.Linked) (head : RuleHead) : run head doc = some (check head doc) := by
  refine Checked.filterMapM_eq fun (element,i) _ => ?_
  rw [runOn,judge?]
  cases found : container? element with
  | none => rfl
  | some container =>
    obtain ⟨role,items⟩ := container
    obtain ⟨_,_,looked⟩ := Option.bind_eq_some_iff.mp found
    obtain ⟨_,listed,same⟩ := Option.bind_eq_some_iff.mp looked
    cases same
    have first := first_of_lookup (by decide) listed
    simp only [bind,Option.bind_some,fetchIsSettled_eq,fetchOwnsItem_eq linked,first]
    cases isSettled doc i element
    · rfl
    · cases ownsItem doc i items <;> rfl

end RequiredChildren

namespace RequiredParent

/-- The role of the nearest element around an element that says something about its content. -/
def contextRole? (doc : Document) (i : Nat) : Option String :=
  (doc.ancestors i).findSome? fun outer => (doc.elements[outer]?).bind context?

def judge? (ignoreTopLevel : Bool) (head : RuleHead) (doc : Document) (entry : Element × Nat) :
    Option Violation := do
  let (role,containers) ← item? entry.1
  let context := contextRole? doc entry.2
  if context.any containers.contains || (context.isNone && ignoreTopLevel) then none
  else report head doc entry role (containers.headD "") context

def check (ignoreTopLevel : Bool) (head : RuleHead) (doc : Document) : List Violation :=
  doc.indexed.filterMap (judge? ignoreTopLevel head doc)

theorem run_eq (linked : doc.Linked) (ignoreTopLevel : Bool) (head : RuleHead) :
    run ignoreTopLevel head doc = some (check ignoreTopLevel head doc) := by
  refine Checked.filterMapM_eq fun entry _ => ?_
  have around : doc.fetchAround entry.2 (fun _ outer => context? outer) = some (contextRole? doc entry.2) :=
    linked.fetchAround_eq _ _
  rw [runOn,judge?,around]
  cases found : item? entry.1 with
  | none => rfl
  | some item =>
    obtain ⟨role,containers⟩ := item
    obtain ⟨_,_,same⟩ := Option.bind_eq_some_iff.mp found
    obtain ⟨_,listed,judged⟩ := Option.bind_eq_some_iff.mp same
    split_ifs at judged
    cases judged
    have first := first_of_lookup (by decide) listed
    simp only [bind,Option.bind_some,first]
    exact (apply_ite some _ _ _).symm

end RequiredParent

namespace TabRovingFocus

/-- The tabs outside every list of tabs that stand directly in the given element. -/
def strayTabs (doc : Document) (parent : Option Nat) : List Nat :=
  (doc.indicesWhere fun element =>
    element.hasRole "tab" && !element.detached && element.parent == parent).filter fun tab =>
      (doc.nearestWithRole? tab ["tablist"]).isNone

def strayGroup? (doc : Document) (parent : Option Nat) : Option Group :=
  match strayTabs doc parent with
  | [] => none
  | first :: more => some ⟨first, first :: more⟩

/-- The tabs of a list of tabs whose end is known, or the stray tabs of any other element. -/
def groupAt? (doc : Document) (i : Nat) : Option Group :=
  if doc.holdsAt (fun element => element.hasRole "tablist" && element.isKnown) i then
    match doc.groupMembers i ["tab"] ["tablist"] with
    | [] => none
    | tabs => some ⟨i, tabs⟩
  else strayGroup? doc (some i)

/-- The groups of a document: the stray tabs in no element, then the group of each element. -/
def groups (doc : Document) : List Group :=
  (strayGroup? doc none).toList ++ (List.range doc.elements.length).filterMap (groupAt? doc)

def isUncertain (doc : Document) (tab : Nat) : Bool :=
  doc.isMadeByTemplate "tabindex" tab || doc.isMadeByTemplate "aria-selected" tab

def judgeTabs (head : RuleHead) (doc : Document) (group : Group) (active : Nat) : List Violation :=
  verdictOnTabs head doc (group.tabs.filter fun tab => tab != active && doc.holdsAt (·.inFocusOrder) tab) active
    (doc.holdsAt (fun element => element.focusIndex? == some 0) active)

def judge (head : RuleHead) (doc : Document) (group : Group) : List Violation :=
  let selected := group.tabs.filter (doc.saysTrue "aria-selected")
  let focusable := group.tabs.filter (doc.holdsAt (·.inFocusOrder))
  let ofTabs := match selected with
    | [active] => judgeTabs head doc group active
    | _ => []
  (judgeWhole head doc group selected focusable ++ ofTabs).map fun violation =>
    { violation with docRef }

def check (head : RuleHead) (doc : Document) : List Violation :=
  ((groups doc).filter fun group => !group.tabs.any (isUncertain doc)).flatMap (judge head doc)

def stray? (doc : Document) (tab : Nat) : Option (Option Nat × Nat) :=
  (doc.elements[tab]?).bind fun element =>
    if element.detached || (doc.nearestWithRole? tab ["tablist"]).isSome then none else some (element.parent,tab)

theorem fetchStrays_eq (linked : doc.Linked) :
    fetchStrays doc = some ((doc.withRole "tab").filterMap (stray? doc)) := by
  refine Checked.filterMapM_eq fun tab member => ?_
  have inside := lt_of_indicesWhere member
  rw [linked.fetchNearest_eq,stray?,fetch,List.getElem?_eq_getElem inside,nearestWithRole?]
  simp only [bind,Option.bind_some]
  cases doc.elements[tab].detached
  · cases (doc.ancestors tab).find? (doc.holdsAt (·.hasRoleIn ["tablist"])) <;> rfl
  · rfl

theorem straysIn_eq (doc : Document) (place : Option Nat) :
    (((doc.withRole "tab").filterMap (stray? doc)).filter fun stray => stray.1 == place).map (·.2) =
      strayTabs doc place := by
  have listed : (doc.indicesWhere fun element => element.hasRole "tab" && !element.detached && element.parent == place) =
      (doc.withRole "tab").filter (doc.holdsAt fun element => !element.detached && element.parent == place) := by
    simp only [Bool.and_assoc]
    exact doc.indicesWhere_and _ _
  rw [strayTabs,listed,List.filter_filter,List.filter_filterMap,List.map_filterMap,← List.filterMap_eq_filter]
  refine List.filterMap_congr fun tab member => ?_
  have inside := lt_of_indicesWhere member
  simp only [stray?,Option.guard,holdsAt,List.getElem?_eq_getElem inside,Option.bind_some,Option.any_some]
  cases doc.elements[tab].detached
  · cases doc.nearestWithRole? tab ["tablist"]
    · by_cases here : doc.elements[tab].parent = place <;> simp [here]
    · simp
  · simp

theorem strayTabs_of_tablist {i : Nat} (linked : doc.Linked)
    (role : doc.holdsAt (·.hasRole "tablist") i = true) : strayTabs doc (some i) = [] := by
  refine List.filter_eq_nil_iff.mpr fun tab member => ?_
  obtain ⟨⟨element,j⟩,kept,rfl⟩ := List.mem_map.mp member
  obtain ⟨listed,stands⟩ := List.mem_filter.mp kept
  have found := doc.mem_indexed element j listed
  have link : (doc.elements[j]?).bind (·.parent) = some i := by
    rw [found]
    exact beq_iff_eq.mp (Bool.and_eq_true_iff.mp stands).2
  have around : ∃ further, doc.ancestors j = i :: further := by
    unfold ancestors
    cases size : doc.elements.length with
    | zero => exact absurd (linked.lt_of_parent link) (by omega)
    | succ steps =>
      rw [ancestorsWithin,link]
      exact ⟨_,rfl⟩
  obtain ⟨further,parts⟩ := around
  have nearest : doc.nearestWithRole? j ["tablist"] = some i := by
    rw [nearestWithRole?,Element.hasRoleIn_singleton,parts,List.find?_cons_of_pos role]
  simp [nearest]

theorem fetchGroup_eq (linked : doc.Linked) {i : Nat} (inside : i < doc.elements.length) :
    fetchGroup doc ((doc.withRole "tab").filterMap (stray? doc)) (some i) = some (groupAt? doc i) := by
  have split : doc.holdsAt (fun element => element.hasRole "tablist" && element.isKnown) i =
      (doc.holdsAt (·.hasRole "tablist") i && doc.holdsAt (·.isKnown) i) := by
    simp [holdsAt,List.getElem?_eq_getElem inside]
  simp only [fetchGroup,fetchListed,fetchAnchor,straysIn_eq,meets_eq inside,linked.fetchMembers_eq,groupAt?,strayGroup?,
    split,bind,Option.bind_some,pure]
  cases role : doc.holdsAt (·.hasRole "tablist") i with
  | true =>
    rw [strayTabs_of_tablist linked role]
    cases doc.holdsAt (·.isKnown) i with
    | true => cases doc.groupMembers i ["tab"] ["tablist"] <;> simp
    | false => rfl
  | false => cases strayTabs doc (some i) <;> rfl

theorem fetchGroups_eq (linked : doc.Linked) : fetchGroups doc = some (groups doc) := by
  have outside : fetchGroup doc ((doc.withRole "tab").filterMap (stray? doc)) none = some (strayGroup? doc none) := by
    simp only [fetchGroup,fetchAnchor,straysIn_eq,strayGroup?,pure,bind,Option.bind_some,List.nil_append]
    cases strayTabs doc none <;> rfl
  have every : ∀ place ∈ none :: (List.range doc.elements.length).map some,
      fetchGroup doc ((doc.withRole "tab").filterMap (stray? doc)) place =
        some (place.elim (strayGroup? doc none) (groupAt? doc)) := by
    intro place member
    rcases List.mem_cons.mp member with rfl | inner
    · exact outside
    · obtain ⟨i,inside,rfl⟩ := List.mem_map.mp inner
      exact fetchGroup_eq linked (List.mem_range.mp inside)
  rw [fetchGroups,fetchStrays_eq linked,Option.bind_eq_bind,Option.bind_some,Checked.filterMapM_eq every,groups,
    List.filterMap_cons,List.filterMap_map]
  cases strayGroup? doc none <;> rfl

theorem lt_of_groups {group : Group} {tab : Nat} (listed : group ∈ groups doc) (member : tab ∈ group.tabs) :
    tab < doc.elements.length := by
  have stray {place : Option Nat} (made : strayGroup? doc place = some group) : tab < doc.elements.length := by
    unfold strayGroup? at made
    split at made
    · contradiction
    next first more same =>
      obtain rfl := Option.some.inj made
      rw [← same] at member
      exact lt_of_indicesWhere (List.mem_filter.mp member).1
  rcases List.mem_append.mp listed with outside | inside
  · exact stray (Option.mem_toList.mp outside)
  · obtain ⟨i,_,made⟩ := List.mem_filterMap.mp inside
    unfold groupAt? at made
    split_ifs at made
    · split at made
      · contradiction
      · obtain rfl := Option.some.inj made
        exact lt_of_groupMembers member
    · exact stray made

theorem isUncertain_eq (doc : Document) : doc.holdsAt isLeftOpen = isUncertain doc := by
  funext tab
  unfold holdsAt isUncertain isMadeByTemplate holdsAt
  cases doc.elements[tab]? <;> rfl

theorem runOn_eq {group : Group} (head : RuleHead) (inside : ∀ tab ∈ group.tabs, tab < doc.elements.length) :
    runOn head doc group = some (if group.tabs.any (isUncertain doc) then [] else judge head doc group) := by
  have ofTabs (active : Nat) (member : active ∈ group.tabs) :
      runOnTabs head doc group active = some (judgeTabs head doc group active) := by
    rw [runOnTabs,filterM_meets fun tab kept => inside tab (List.mem_filter.mp kept).1,meets_eq (inside active member),
      List.filter_filter,judgeTabs]
    simp only [Bool.and_comm]
    rfl
  rw [runOn,anyM_meets inside,filterM_meets inside,filterM_meets inside,isUncertain_eq]
  cases group.tabs.any (isUncertain doc) with
  | true => rfl
  | false =>
    have chosen : (group.tabs.filter (doc.holdsAt fun tab => isTrue (tab.value? "aria-selected"))) =
        group.tabs.filter (doc.saysTrue "aria-selected") := rfl
    simp only [judge,chosen,bind,Option.bind_some,Bool.false_eq_true,if_false]
    cases selected : group.tabs.filter (doc.saysTrue "aria-selected") with
    | nil => rfl
    | cons active others =>
      cases others with
      | nil =>
        have member : active ∈ group.tabs := by
          have here : active ∈ group.tabs.filter (doc.saysTrue "aria-selected") := by simp [selected]
          exact (List.mem_filter.mp here).1
        dsimp only
        rw [ofTabs active member]
        rfl
      | cons => rfl

theorem run_eq (linked : doc.Linked) (head : RuleHead) : run head doc = some (check head doc) := by
  have inside (group : Group) (listed : group ∈ groups doc) : ∀ tab ∈ group.tabs, tab < doc.elements.length :=
    fun _ => lt_of_groups listed
  have judged := Checked.mapM_eq fun group listed => runOn_eq head (inside group listed)
  rw [run,fetchGroups_eq linked,Option.bind_eq_bind,Option.bind_some,judged,check]
  refine congrArg some ?_
  clear judged
  induction groups doc with
  | nil => rfl
  | cons group rest ih =>
    rw [List.map_cons,List.flatten_cons,ih,List.filter_cons]
    cases group.tabs.any (isUncertain doc) <;> rfl

end TabRovingFocus

namespace ListNestingDepth

/-- The level of the element that comes after the elements with the given levels. -/
def nextLevel (doc : Document) (before : List (Option Nat)) (element : Element) (i : Nat) : Option Nat :=
  if element.hasRole "list" && isPlaced element then
    match doc.nearestWithRole? i ["list"] with
    | some outer => (before[outer]?).join.map (· + 1)
    | none => some 1
  else none

def levels (doc : Document) : List (Option Nat) :=
  doc.indexed.foldl (fun before (element,i) => before ++ [nextLevel doc before element i]) []

def deepest (doc : Document) (levels : List (Option Nat)) (i level : Nat) : Nat :=
  ((doc.descendants i).filterMap fun inner => (levels[inner]?).join).foldl max level

def judge? (allowed : Nat) (head : RuleHead) (doc : Document) (levels : List (Option Nat)) (i : Nat) :
    Option Violation :=
  if (levels[i]?).join = some (allowed + 1) then
    some (report allowed head doc i (deepest doc levels i (allowed + 1)))
  else none

def check (allowed : Nat) (head : RuleHead) (doc : Document) : List Violation :=
  (List.range doc.elements.length).filterMap (judge? allowed head doc (levels doc))

theorem fetchLevel_eq (linked : doc.Linked) (before after : List (Option Nat)) (element : Element) :
    fetchLevel doc (before ++ after) element before.length = some (nextLevel doc before element before.length) := by
  rw [fetchLevel,nextLevel,linked.fetchNearest_eq]
  cases element.hasRole "list" && isPlaced element with
  | false => rfl
  | true =>
    rw [nearestWithRole?]
    cases search : (doc.ancestors before.length).find? (doc.holdsAt (·.hasRoleIn ["list"])) with
    | none => rfl
    | some outer =>
      have earlier := linked.before_of_ancestors (List.mem_of_find?_eq_some search)
      simp [List.getElem?_append_left earlier,List.getElem?_eq_getElem earlier]

theorem fetchLevels_eq (linked : doc.Linked) : fetchLevels doc = some (levels doc) := by
  have filled (rest : List Element) (before : List (Option Nat)) :
      ((rest.zipIdx before.length).foldlM (fun levels (element,i) => do
        return levels.set i (← fetchLevel doc levels element i)) (before ++ List.replicate rest.length none)) =
      some ((rest.zipIdx before.length).foldl (fun before (element,i) => before ++ [nextLevel doc before element i])
        before) := by
    induction rest generalizing before with
    | nil => simp
    | cons element rest ih =>
      have further := ih (before ++ [nextLevel doc before element before.length])
      rw [List.length_append,List.length_singleton,List.append_assoc] at further
      rw [List.zipIdx_cons,List.foldlM_cons]
      dsimp only
      rw [fetchLevel_eq linked]
      simpa [List.replicate_succ] using further
  exact filled doc.elements []

theorem length_levels (doc : Document) : (levels doc).length = doc.elements.length := by
  have grown (entries : List (Element × Nat)) (before : List (Option Nat)) :
      (entries.foldl (fun before (element,i) => before ++ [nextLevel doc before element i]) before).length =
        before.length + entries.length := by
    induction entries generalizing before with
    | nil => rfl
    | cons entry rest ih =>
      rw [List.foldl_cons,ih,List.length_append,List.length_singleton,List.length_cons]
      omega
  rw [levels,grown,indexed,List.length_zipIdx,List.length_nil,Nat.zero_add]

theorem run_eq (linked : doc.Linked) (allowed : Nat) (head : RuleHead) :
    run allowed head doc = some (check allowed head doc) := by
  have places : List.range doc.elements.length = (levels doc).zipIdx.map (·.2) := by
    rw [← length_levels,List.zipIdx_map_snd,List.range_eq_range']
  rw [run,fetchLevels_eq linked,check,places,List.filterMap_map]
  refine Checked.filterMapM_eq fun (level,i) member => ?_
  have found := List.mem_zipIdx_iff_getElem?.mp member
  have within : (doc.descendants i).mapM (fun inner => (levels doc)[inner]?) =
      some ((doc.descendants i).map fun inner => ((levels doc)[inner]?).join) :=
    Checked.mapM_eq fun inner descends => by
      have inside := lt_of_descendants descends
      rw [← length_levels] at inside
      rw [List.getElem?_eq_getElem inside]
      rfl
  simp only [runOn,Function.comp_apply,judge?,deepest,found,within,Option.join_some,bind,Option.bind_some,
    List.filterMap_map]
  exact (apply_ite some _ _ _).symm

end ListNestingDepth

namespace ListItemCount

def judge? (allowed : Nat) (head : RuleHead) (doc : Document) (list : Nat) : Option Violation :=
  verdict? allowed head doc list (doc.groupMembers list ["listitem"] ["list"]).length

def check (allowed : Nat) (head : RuleHead) (doc : Document) : List Violation :=
  (doc.knownWithRole "list").filterMap (judge? allowed head doc)

theorem run_eq (linked : doc.Linked) (allowed : Nat) (head : RuleHead) :
    run allowed head doc = some (check allowed head doc) := by
  rw [run,fetchKnown_eq]
  refine Checked.filterMapM_eq fun list _ => ?_
  rw [linked.fetchMembers_eq]
  rfl

end ListItemCount

namespace ListSemantics

def classifyList (settings : Settings) (doc : Document) (list : Nat) : Option Classification :=
  classify ContentKind.reads settings
    ((doc.groupMembers list ["listitem"] ["list"]).map doc.innerText)

def judge? (settings : Settings) (head : RuleHead) (doc : Document) (list : Nat) :
    Option Violation :=
  (classifyList settings doc list).map (report head doc list)

def check (settings : Settings) (head : RuleHead) (doc : Document) : List Violation :=
  (doc.indicesWhere fun element =>
    element.name == "ul" && element.hasRole "list" && element.isKnown).filterMap
      (judge? settings head doc)

theorem run_eq (linked : doc.Linked) (settings : Settings) (head : RuleHead) :
    run settings head doc = some (check settings head doc) := by
  have listed : (doc.indicesWhere fun element => element.name == "ul" && element.hasRole "list" && element.isKnown) =
      (doc.named "ul").filter (doc.holdsAt fun element => element.hasRole "list" && element.isKnown) := by
    simp only [Bool.and_assoc]
    exact doc.indicesWhere_and _ _
  rw [check,listed,List.filterMap_filter]
  refine Checked.filterMapM_eq fun list named => ?_
  have inside := lt_of_indicesWhere named
  have found := List.getElem?_eq_getElem inside
  have texts := @Checked.mapM_eq _ _ (doc.groupMembers list ["listitem"] ["list"]) _ _ fun i _ => doc.fetchInnerText_eq i
  simp only [runOn,fetch,found,linked.fetchMembers_eq,texts,bind,Option.bind_some,holdsAt,Option.any_some]
  cases doc.elements[list].hasRole "list"
  · rfl
  · cases doc.elements[list].isKnown <;> rfl

end ListSemantics

namespace LandmarkUniqueness

def checkMain (head : RuleHead) (doc : Document) : List Violation :=
  reportMains head doc (doc.indicesWhere fun element => element.hasRole "main" && !element.isHidden)

/-- The text of the elements that the identifiers name; an identifier of no element stands for
itself. -/
def referencedText (doc : Document) (ids : String) : String :=
  String.intercalate " " ((Text.words ids).map fun id =>
    match doc.resolve? id with
    | some (target, _) => doc.innerText target
    | none => id)

/-- The name of an element: its label, or else the text of the elements that label it. A list of
labels that a template makes is a name that no other element has. -/
def accessibleName? (doc : Document) (element : Element) (i : Nat) : Option String :=
  match (element.value? "aria-label").filter fun label => !Text.blankString label with
  | some label => some (Text.trim label)
  | none =>
    (element.value? "aria-labelledby").bind fun ids =>
      if isDynamic ids then some s!"{ids}#{i}"
      else
        let text := referencedText doc ids
        if Text.blankString text then none else some text

def namedNavigations (doc : Document) : List (Nat × Option String) :=
  (doc.indexed.filter fun entry => entry.1.hasRole "navigation").map fun (element, i) =>
    (i, accessibleName? doc element i)

def checkNavigation (head : RuleHead) (doc : Document) : List Violation :=
  let navigations := namedNavigations doc
  if navigations.length < 2 then [] else navigations.filterMap (judge? head doc navigations)

def check (head : RuleHead) (doc : Document) : List Violation :=
  checkMain head doc ++ checkNavigation head doc

theorem fetchText_eq (linked : doc.Linked) (ids : List String) : ids.mapM (fetchText doc) =
    some (ids.map fun id => match doc.resolve? id with
      | some (target,_) => doc.innerText target
      | none => id) := by
  refine Checked.mapM_eq fun id _ => ?_
  rw [fetchText,linked.fetchOwner_eq]
  cases doc.resolve? id with
  | none => rfl
  | some found => exact doc.fetchInnerText_eq found.1

theorem fetchName_eq (linked : doc.Linked) {i : Nat} {element : Element} (found : doc.elements[i]? = some element) :
    fetchName doc i = some (accessibleName? doc element i) := by
  rw [fetchName,accessibleName?,fetch,found]
  simp only [bind,Option.bind_some]
  cases (element.value? "aria-label").filter fun label => !Text.blankString label with
  | some label => rfl
  | none =>
    cases element.value? "aria-labelledby" with
    | none => rfl
    | some ids =>
      simp only [fetchText_eq linked,Option.bind_some,pure]
      cases isDynamic ids <;> rfl

theorem fetchNamed_eq (linked : doc.Linked) :
    (doc.withRole "navigation").mapM (fetchNamed doc) = some (namedNavigations doc) := by
  unfold namedNavigations withRole indicesWhere indexed
  rw [List.mapM_map]
  refine Checked.mapM_eq fun entry kept => ?_
  have found := List.mem_zipIdx_iff_getElem?.mp (List.mem_filter.mp kept).1
  rw [Function.comp_apply,fetchNamed,fetchName_eq linked found]
  rfl

theorem run_eq (linked : doc.Linked) (head : RuleHead) : run head doc = some (check head doc) := by
  have mains : runOnMains head doc = some (checkMain head doc) := by
    rw [runOnMains,filterM_withRole]
    rfl
  have size : (doc.withRole "navigation").length = (namedNavigations doc).length := by
    simp [namedNavigations,withRole,indicesWhere,indexed]
  have navigations : runOnNavigations head doc = some (checkNavigation head doc) := by
    rw [runOnNavigations,checkNavigation,fetchNamed_eq linked]
    simp only [size,bind,Option.bind_some]
    exact (apply_ite some _ _ _).symm
  rw [run,mains,navigations]
  rfl

end LandmarkUniqueness

namespace LiveRegion

def judgeHidden? (head : RuleHead) (doc : Document) (element : Element) (i : Nat) :
    Option Violation :=
  if !isAnnounced element then none
  else if element.isAriaHidden then some (reportItself head doc i)
  else ((doc.ancestors i).find? (doc.holdsAt (·.isAriaHidden))).map (reportInside head doc i)

def check (head : RuleHead) (doc : Document) : List Violation :=
  doc.indexed.flatMap fun (element, i) =>
    (judgePoliteness? head doc element i).toList ++ (judgeHidden? head doc element i).toList

theorem runOnHidden_eq (linked : doc.Linked) (head : RuleHead) (element : Element) (i : Nat) :
    runOnHidden head doc element i = some (judgeHidden? head doc element i) := by
  rw [runOnHidden,judgeHidden?,linked.fetchNearest_eq]
  simp only [bind,Option.bind_some,pure]
  split_ifs <;> rfl

theorem run_eq (linked : doc.Linked) (head : RuleHead) : run head doc = some (check head doc) := by
  have judged : doc.indexed.mapM (runOn head doc) = some (doc.indexed.map fun (element,i) =>
      (judgePoliteness? head doc element i).toList ++ (judgeHidden? head doc element i).toList) := by
    refine Checked.mapM_eq fun (element,i) _ => ?_
    rw [runOn,runOnHidden_eq linked]
    rfl
  rw [run,judged,check,List.flatMap_def]
  rfl

end LiveRegion

namespace HiddenFocusable

/-- Whether the element is the outermost one that hides its content, and does not take it out of the
order of focus too. -/
def isOutermostHider (doc : Document) (element : Element) (i : Nat) : Bool :=
  element.isAriaHidden && !element.has "inert" &&
    !(doc.ancestors i).any (doc.holdsAt (·.isAriaHidden))

/-- Whether an element between the hider and an element in it takes that out of the order of
focus. -/
def isShielded (doc : Document) (hider i : Nat) : Bool :=
  ((doc.ancestors i).takeWhile (· != hider)).any
    (doc.holdsAt fun element => element.has "inert" || element.has "hidden")

def reachableIn (doc : Document) (hider : Nat) : List Nat :=
  ((doc.descendants hider).filter (doc.holdsAt isReachable)).filter fun i =>
    !isShielded doc hider i

def judge? (head : RuleHead) (doc : Document) (entry : Element × Nat) : Option Violation :=
  let (element, i) := entry
  if !isOutermostHider doc element i then none
  else if isReachable element then some (reportItself head doc element i)
  else if element.isKnown then reportContent? head doc i (reachableIn doc i)
  else none

def check (head : RuleHead) (doc : Document) : List Violation :=
  doc.indexed.filterMap (judge? head doc)

theorem fetchIsOutermost_eq (linked : doc.Linked) (element : Element) (i : Nat) :
    fetchIsOutermost doc element i = some (isOutermostHider doc element i) := by
  have around : ((doc.ancestors i).find? (doc.holdsAt (·.isAriaHidden))).isNone =
      !(doc.ancestors i).any (doc.holdsAt (·.isAriaHidden)) := by
    rw [← List.isSome_find?,Option.not_isSome]
  rw [fetchIsOutermost,isOutermostHider,linked.fetchNearest_eq,← around]
  cases element.isAriaHidden
  · rfl
  · cases element.has "inert" <;> rfl

theorem fetchIsShielded_eq (linked : doc.Linked) (hider i : Nat) :
    fetchIsShielded doc hider i = some (isShielded doc hider i) := by
  have passed (outers : List Nat) (inside : ∀ outer ∈ outers, outer < doc.elements.length) :
      ((outers.findSome? fun outer => (doc.elements[outer]?).bind fun element =>
        if outer == hider then some false
        else if element.has "inert" || element.has "hidden" then some true
        else none).getD false) = (outers.takeWhile (· != hider)).any
          (doc.holdsAt fun element => element.has "inert" || element.has "hidden") := by
    induction outers with
    | nil => rfl
    | cons outer rest ih =>
      obtain ⟨element,found⟩ : ∃ element, doc.elements[outer]? = some element :=
        ⟨_,List.getElem?_eq_getElem (inside outer List.mem_cons_self)⟩
      have further := ih fun other later => inside other (List.mem_cons_of_mem _ later)
      rw [List.findSome?_cons,List.takeWhile_cons,found,Option.bind_some]
      by_cases here : outer = hider
      · simp [here]
      · cases shield : element.has "inert" || element.has "hidden" with
        | true => simp [here,shield,holdsAt,found]
        | false => simpa [here,shield,holdsAt,found] using further
  rw [fetchIsShielded,linked.fetchAround_eq,isShielded,← passed _ fun _ => linked.lt_of_ancestors]
  rfl

theorem fetchReachable_eq (linked : doc.Linked) (hider : Nat) :
    fetchReachable doc hider = some (reachableIn doc hider) := by
  rw [reachableIn,List.filter_filter]
  refine Checked.filterM_eq fun i descends => ?_
  rw [meets_eq (lt_of_descendants descends),fetchIsShielded_eq linked]
  cases doc.holdsAt isReachable i <;> simp

theorem run_eq (linked : doc.Linked) (head : RuleHead) : run head doc = some (check head doc) := by
  refine Checked.filterMapM_eq fun (element,i) _ => ?_
  rw [runOn,judge?,fetchIsOutermost_eq linked,fetchReachable_eq linked]
  cases isOutermostHider doc element i
  · rfl
  · cases isReachable element
    · cases element.isKnown <;> rfl
    · rfl

end HiddenFocusable

theorem faultless (linked : doc.Linked) {settings : Settings} {rule : Rule} (listed : rule ∈ catalogue settings)
    (block : RuleBlock) : ∃ found, rule.check block doc = some found := by
  simp only [catalogue,List.mem_cons,List.not_mem_nil,or_false] at listed
  rcases listed with rfl | rfl | rfl | rfl | rfl | rfl | rfl | rfl | rfl | rfl | rfl | rfl | rfl | rfl | rfl | rfl
  · exact ⟨_,TablistSelection.run_eq linked _⟩
  · exact ⟨_,TabRovingFocus.run_eq linked _⟩
  · exact ⟨_,rfl⟩
  · exact ⟨_,DuplicateId.run_eq linked _⟩
  · exact ⟨_,PanelVisibility.run_eq linked _⟩
  · exact ⟨_,RequiredChildren.run_eq linked _⟩
  · exact ⟨_,RequiredParent.run_eq linked _ _⟩
  · exact ⟨_,rfl⟩
  · exact ⟨_,rfl⟩
  · exact ⟨_,ListNestingDepth.run_eq linked _ _⟩
  · exact ⟨_,ListItemCount.run_eq linked _ _⟩
  · exact ⟨_,ListSemantics.run_eq linked _ _⟩
  · exact ⟨_,LandmarkUniqueness.run_eq linked _⟩
  · exact ⟨_,LiveRegion.run_eq linked _⟩
  · exact ⟨_,HiddenFocusable.run_eq linked _⟩
  · exact ⟨_,rfl⟩

end Rules

end AccessibleMarkup
