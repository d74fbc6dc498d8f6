import AccessibleMarkup.Proofs.DocumentTree
import AccessibleMarkup.Proofs.FaultlessRules
import AccessibleMarkup.Proofs.LoneRules

/-! Groups of elements by role. The members of a container are found among the run of elements after it, and kept
if the links to parents lead to it first. So the groups are apart, each member around which a container stands is in
one of them, and a list of tabs is judged by the tabs that belong to it. -/
namespace AccessibleMarkup

open Text Markup

namespace Document

/-- The innermost element with one of the roles around an element. -/
structure IsNearest (doc : Document) (roles : List String) (i outer : Nat) : Prop where
  around : outer ∈ doc.ancestors i
  role : doc.holdsAt (·.hasRoleIn roles) outer = true
  nearest : ∀ other ∈ doc.ancestors i, doc.holdsAt (·.hasRoleIn roles) other = true →
    other = outer ∨ other ∈ doc.ancestors outer

variable {source : List Char} {filter : Filter} {roles members containers : List String} {i outer other container : Nat}

theorem IsNearest.unique (first : (read source filter).IsNearest roles i outer)
    (second : (read source filter).IsNearest roles i other) : outer = other := by
  rcases first.nearest other second.around second.role with equal | further
  · exact equal.symm
  · rcases second.nearest outer first.around first.role with equal | back
    · exact equal
    · exact absurd (lt_of_ancestors further) (Nat.lt_asymm (lt_of_ancestors back))

theorem nearestWithRole?_eq_some_iff :
    (read source filter).nearestWithRole? i roles = some outer ↔ (read source filter).IsNearest roles i outer := by
  have finds {found : Nat} (search : (read source filter).nearestWithRole? i roles = some found) :
      (read source filter).IsNearest roles i found := by
    obtain ⟨role,front,back,parts,skipped⟩ := List.find?_eq_some_iff_append.mp search
    have behind := ancestors_split parts
    refine ⟨by rw [parts]; simp,role,fun other member holds => ?_⟩
    rw [parts] at member
    rcases List.mem_append.mp member with before | after
    · have := skipped other before
      simp [holds] at this
    · exact (List.mem_cons.mp after).imp_right (behind ▸ ·)
  refine ⟨finds,fun nearest => ?_⟩
  have present : ((read source filter).nearestWithRole? i roles).isSome = true :=
    List.find?_isSome.mpr ⟨outer,nearest.around,nearest.role⟩
  obtain ⟨found,search⟩ := Option.isSome_iff_exists.mp present
  rw [search,(finds search).unique nearest]

theorem nearestWithRole?_eq_none_iff {doc : Document} {role : String} : doc.nearestWithRole? i [role] = none ↔
    ∀ outer ∈ doc.ancestors i, doc.holdsAt (·.hasRole role) outer = false := by
  rw [nearestWithRole?,List.find?_eq_none,Element.hasRoleIn_singleton]
  simp

theorem mem_groupMembers : i ∈ (read source filter).groupMembers container members containers ↔
    (read source filter).holdsAt (·.hasRoleIn members) i = true ∧
      (read source filter).IsNearest containers i container := by
  rw [groupMembers,List.mem_filter,List.mem_filter,mem_descendants,beq_iff_eq,nearestWithRole?_eq_some_iff,and_assoc]
  constructor
  · exact And.right
  · rintro ⟨role,nearest⟩
    exact ⟨mem_ancestors.mp nearest.around,role,nearest⟩

theorem groupMembers_rising {doc : Document} : (doc.groupMembers container members containers).Pairwise (· < ·) :=
  (descendants_rising.filter _).filter _

end Document

namespace Rules.TablistSelection

/-- Whether a list of tabs has an end that is known, and of its tabs, about which no template decides, not exactly
one is selected. -/
def isUnsettled (doc : Document) (tablist : Nat) : Bool :=
  let tabs := doc.groupMembers tablist ["tab"] ["tablist"]
  doc.holdsAt (·.isKnown) tablist && !tabs.isEmpty && !tabs.any (doc.isMadeByTemplate "aria-selected") &&
    tabs.countP (doc.saysTrue "aria-selected") != 1

theorem verdict?_location (head : RuleHead) (doc : Document) (tablist : Nat) (tabs selected : List Nat) :
    (verdict? head doc tablist tabs selected).map (·.location) =
      if selected.length != 1 then some (doc.openTagLocation tablist) else none := by
  unfold verdict?
  dsimp only
  split
  next none => rw [none]; rfl
  next one => rw [one]; rfl
  next several => rw [if_pos (by simpa using several)]; rfl

theorem judge?_location (head : RuleHead) (doc : Document) (tablist : Nat) :
    (if doc.holdsAt (·.isKnown) tablist then judge? head doc tablist else none).map (·.location) =
      if isUnsettled doc tablist then some (doc.openTagLocation tablist) else none := by
  unfold judge? isUnsettled
  dsimp only
  generalize doc.groupMembers tablist ["tab"] ["tablist"] = tabs
  have verdict := verdict?_location head doc tablist tabs (tabs.filter (doc.saysTrue "aria-selected"))
  rw [← List.countP_eq_length_filter] at verdict
  by_cases known : doc.holdsAt (·.isKnown) tablist = true
  · by_cases open_ : (tabs.isEmpty || tabs.any (doc.isMadeByTemplate "aria-selected")) = true
    · rw [if_pos known,if_pos open_,if_neg]
      · rfl
      · simp only [Bool.or_eq_true] at open_
        rcases open_ with empty | dynamic
        · simp [empty]
        · simp [dynamic]
    · rw [if_pos known,if_neg open_,verdict]
      simp only [Bool.or_eq_true,not_or,Bool.not_eq_true] at open_
      simp [known,open_]
  · rw [if_neg known,if_neg (by simp [known])]
    rfl

theorem check_locations (head : RuleHead) (doc : Document) : (check head doc).map (·.location) =
    ((doc.withRole "tablist").filter (isUnsettled doc)).map doc.openTagLocation := by
  have known : doc.knownWithRole "tablist" = (doc.withRole "tablist").filter (doc.holdsAt (·.isKnown)) := by
    rw [Document.knownWithRole,Document.withRole,Document.indicesWhere_eq_filter,Document.indicesWhere_eq_filter,
      List.filter_filter]
    refine List.filter_congr fun i _ => ?_
    rw [Document.holdsAt,Document.holdsAt,Document.holdsAt]
    cases doc.elements[i]? with
    | none => rfl
    | some element => exact Bool.and_comm _ _
  rw [check,known,List.filterMap_filter,List.map_filterMap,← List.filterMap_eq_map,List.filterMap_filter]
  exact List.filterMap_congr fun tablist _ => judge?_location head doc tablist

/-- Containers share the members that stand in one of them: each belongs to the innermost one. A list of tabs is
reported at its opening tag, once, exactly if it is unsettled. -/
theorem tabs_belong_to_nearest (head : RuleHead) (source : List Char) (filter : Filter) :
    let doc := Document.read source filter
    (∀ members containers : List String,
      (∀ container, (doc.groupMembers container members containers).Pairwise (· < ·) ∧
        ∀ i, i ∈ doc.groupMembers container members containers ↔
          doc.holdsAt (·.hasRoleIn members) i = true ∧ doc.IsNearest containers i container) ∧
      (∀ first second, first ≠ second →
        (doc.groupMembers first members containers).Disjoint (doc.groupMembers second members containers)) ∧
      ∀ i, doc.holdsAt (·.hasRoleIn members) i = true →
        (∃ outer ∈ doc.ancestors i, doc.holdsAt (·.hasRoleIn containers) outer = true) →
        ∃! container, doc.holdsAt (·.hasRoleIn containers) container = true ∧
          i ∈ doc.groupMembers container members containers) ∧
    (∃ found, run head doc = some found ∧ found.map (·.location) =
      ((doc.withRole "tablist").filter (isUnsettled doc)).map doc.openTagLocation) ∧
    ((doc.withRole "tablist").map doc.openTagLocation).Nodup := by
  intro doc
  refine ⟨fun members containers => ⟨fun container => ?_,fun first second differ => ?_,fun i role around => ?_⟩,
    ⟨_,run_eq (Document.read_linked source filter) head,check_locations head doc⟩,?_⟩
  · exact ⟨Document.groupMembers_rising,fun i => Document.mem_groupMembers⟩
  · intro i inFirst inSecond
    exact differ ((Document.mem_groupMembers.mp inFirst).2.unique (Document.mem_groupMembers.mp inSecond).2)
  · have present : (doc.nearestWithRole? i containers).isSome = true := by
      obtain ⟨outer,member,holds⟩ := around
      exact List.find?_isSome.mpr ⟨outer,member,holds⟩
    obtain ⟨container,search⟩ := Option.isSome_iff_exists.mp present
    have nearest := Document.nearestWithRole?_eq_some_iff.mp search
    refine ⟨container,⟨nearest.role,Document.mem_groupMembers.mpr ⟨role,nearest⟩⟩,fun other ⟨_,member⟩ => ?_⟩
    exact (Document.mem_groupMembers.mp member).2.unique nearest
  · refine List.Nodup.map_on (fun i member j other same => ?_) Document.indicesWhere_rising.nodup
    exact Document.openTagLocation_injective (Document.lt_of_indicesWhere member)
      (Document.lt_of_indicesWhere other) same

theorem tabs_belong_to_nearest_nested :
    let doc := Document.read ("<div role=\"tablist\"><b role=\"tab\">a</b><p role=\"tablist\">" ++
      "<b role=\"tab\" aria-selected=\"true\">b</b></p></div>").toList
    0 ∈ doc.ancestors 3 ∧ 3 ∉ doc.groupMembers 0 ["tab"] ["tablist"] ∧
      (∃! container, doc.holdsAt (·.hasRoleIn ["tablist"]) container = true ∧
        3 ∈ doc.groupMembers container ["tab"] ["tablist"]) ∧
      ∃ found, run rule.toRuleHead doc = some found ∧ found.map (·.location) = [doc.openTagLocation 0] := by
  intro doc
  obtain ⟨groups,⟨found,ran,reported⟩,_⟩ := tabs_belong_to_nearest rule.toRuleHead _ Filter.keep
  obtain ⟨_,apart,every⟩ := groups ["tab"] ["tablist"]
  obtain ⟨around,inner,tab,list,unsettled⟩ : 0 ∈ doc.ancestors 3 ∧ 3 ∈ doc.groupMembers 2 ["tab"] ["tablist"] ∧
      doc.holdsAt (·.hasRoleIn ["tab"]) 3 = true ∧ doc.holdsAt (·.hasRoleIn ["tablist"]) 0 = true ∧
      (doc.withRole "tablist").filter (isUnsettled doc) = [0] := by decide +kernel
  refine ⟨around,fun outer => apart 0 2 (by decide) outer inner,every 3 tab ⟨0,around,list⟩,found,ran,?_⟩
  rw [reported,unsettled]
  rfl

end Rules.TablistSelection

end AccessibleMarkup
