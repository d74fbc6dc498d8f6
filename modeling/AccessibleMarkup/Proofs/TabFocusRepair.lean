import AccessibleMarkup.Proofs.FixExhaustion
import AccessibleMarkup.Proofs.TabGroups

/-! Mending the order of focus of tabs. Every round gives one tab the place that it should have and leaves all
other elements, the groups and the selection as they are, so no tab is mended twice and mending comes to rest
with every judged group settled. -/
namespace AccessibleMarkup

open Text Markup

namespace Markup

namespace Element

variable {text result : List Char} {first second : Element}

theorem value?_profile (element : Element) (name : String) :
    element.value? name = Attribute.Content.value? element.profile.attributes name :=
  (Attribute.Content.value?_content element.attributes name).symm

theorem role_eq (member : first ∈ elements text) : first.role = role? first.name first.attributes := by
  obtain ⟨node,_,rfl⟩ := List.mem_map.mp member
  rfl

theorem alike_of_values (one : first ∈ elements text) (two : second ∈ elements result)
    (name : first.name = second.name)
    (values : ∀ attr ∈ roleAttributes, first.value? attr = second.value? attr) : first.role = second.role := by
  rw [role_eq one,role_eq two,name]
  exact role?_congr _ _ _ values

theorem alike_of_profile (one : first ∈ elements text) (two : second ∈ elements result)
    (same : first.profile = second.profile) : first.Alike second := by
  have value (attr : String) : first.value? attr = second.value? attr := by
    rw [value?_profile,value?_profile,same]
  have name : first.name = second.name := congrArg Profile.name same
  exact ⟨name,alike_of_values one two name fun attr _ => value attr,value⟩

end Element

end Markup

namespace Rules.TabRovingFocus

variable {doc other : Document}

/-- The text after a tab has got another place in the order of focus: the structure is the same, and so are all
other elements and attributes. -/
structure Refocused (text next : List Char) (tab : Nat) (value : String) : Prop where
  traits : (elements next).map Element.traits = (elements text).map Element.traits
  others : ∀ i ≠ tab, ∀ element, (elements text)[i]? = some element →
    ∃ same, (elements next)[i]? = some same ∧ element.Alike same
  here : ∃ element changed, (elements text)[tab]? = some element ∧ (elements next)[tab]? = some changed ∧
    changed.value? "tabindex" = some value ∧
    ∀ attr, sameIgnoringCase "tabindex" attr = false → changed.value? attr = element.value? attr

theorem profile_amended {text next : List Char} {i : Nat} {element : Element} {fix : Fix}
    (found : (elements text)[i]? = some element)
    (profiles : (elements next).map Element.profile = (elements text).map fun other =>
      if other.start = element.start then other.profile.amend fix else other.profile) :
    ∃ changed, (elements next)[i]? = some changed ∧ changed.profile = element.profile.amend fix := by
  have here := congrArg (·[i]?) profiles
  simp only [List.getElem?_map,found,Option.map_some,if_pos] at here
  exact Option.map_eq_some_iff.mp here

theorem profile_kept {text next : List Char} {i j : Nat} {element other : Element} {fix : Fix}
    (found : (elements text)[i]? = some element) (present : (elements text)[j]? = some other) (elsewhere : j ≠ i)
    (profiles : (elements next).map Element.profile = (elements text).map fun other =>
      if other.start = element.start then other.profile.amend fix else other.profile) :
    ∃ same, (elements next)[j]? = some same ∧ same.profile = other.profile := by
  have apart : other.start ≠ element.start := by
    rw [elements_getElem?] at present found
    obtain ⟨first,one,rfl⟩ := Option.map_eq_some_iff.mp present
    obtain ⟨second,two,rfl⟩ := Option.map_eq_some_iff.mp found
    exact fun same => elsewhere ((outlineNodes_forest text).index_of_start one two same)
  have here := congrArg (·[j]?) profiles
  simp only [List.getElem?_map,present,Option.map_some,if_neg apart] at here
  exact Option.map_eq_some_iff.mp here

theorem refocused_of_profiles {text next : List Char} {tab : Nat} {element : Element} {value : String}
    (found : (elements text)[tab]? = some element) (plain : escaped value = value.toList) (given : value ≠ "")
    (profiles : (elements next).map Element.profile = (elements text).map fun other =>
      if other.start = element.start then other.profile.amend (.setAttribute "tabindex" value)
      else other.profile) :
    Refocused text next tab value := by
  obtain ⟨changed,present,amended⟩ := profile_amended found profiles
  have kept (attr : String) (apart : sameIgnoringCase "tabindex" attr = false) :
      changed.value? attr = element.value? attr := by
    rw [Element.value?_profile,Element.value?_profile,amended,Attribute.Content.value?,Attribute.Content.value?]
    exact congrArg _ (Attribute.Content.find?_setFirst_other element.profile.attributes "tabindex" value attr apart)
  refine ⟨List.ext_getElem? fun i => ?_,fun i other third present => ?_,
    element,changed,found,present,?_,kept⟩
  · rw [List.getElem?_map,List.getElem?_map]
    cases present' : (elements text)[i]? with
    | none =>
      have size := congrArg List.length profiles
      rw [List.length_map,List.length_map] at size
      rw [List.getElem?_eq_none_iff,← size] at present'
      rw [List.getElem?_eq_none present']
    | some third =>
      by_cases other : i = tab
      · subst other
        obtain rfl := Option.some.inj (found.symm.trans present')
        have role : changed.role = element.role :=
          Element.alike_of_values (List.mem_of_getElem? present) (List.mem_of_getElem? found)
            (congrArg Element.Profile.name amended)
            fun attr member => kept attr (by revert attr; decide)
        rw [present,Option.map_some,Option.map_some,Element.traits_eq role (by rw [amended]; rfl)]
      · obtain ⟨same,there,profile⟩ := profile_kept found present' other profiles
        have alike := Element.alike_of_profile (List.mem_of_getElem? there) (List.mem_of_getElem? present') profile
        rw [there,Option.map_some,Option.map_some,Element.traits_eq alike.role (by rw [profile])]
  · obtain ⟨same,there,profile⟩ := profile_kept found present other profiles
    exact ⟨same,there,Element.alike_of_profile (List.mem_of_getElem? present) (List.mem_of_getElem? there)
      profile.symm⟩
  · rw [Element.value?_profile,amended,Attribute.Content.value?]
    have set := Attribute.Content.find?_setFirst element.profile.attributes "tabindex" value
    rw [Element.Profile.amend,Fix.amend,set]
    cases Attribute.Content.find? element.profile.attributes "tabindex" with
    | some attr => simp [plain]
    | none => simp [Attribute.Content.added,given,plain]

namespace Refocused

variable {text next : List Char} {tab : Nat} {value : String}

theorem holdsAt_other (refocused : Refocused text next tab value) (condition : Element → Bool)
    (respects : ∀ first second : Element, first.Alike second → condition first = condition second) (i : Nat)
    (other : i ≠ tab) :
    (Document.read next).holdsAt condition i = (Document.read text).holdsAt condition i := by
  have before : (Document.read text).elements = elements text := rfl
  have after : (Document.read next).elements = elements next := rfl
  rw [Document.holdsAt,Document.holdsAt,before,after]
  cases found : (elements text)[i]? with
  | none =>
    have size := congrArg List.length refocused.traits
    rw [List.length_map,List.length_map] at size
    rw [List.getElem?_eq_none_iff] at found
    rw [List.getElem?_eq_none (by omega)]
  | some element =>
    obtain ⟨same,there,alike⟩ := refocused.others i other element found
    rw [there]
    exact (respects element same alike).symm

theorem holdsAt_value (refocused : Refocused text next tab value) (attr : String)
    (apart : sameIgnoringCase "tabindex" attr = false) (condition : Option String → Bool) (i : Nat) :
    (Document.read next).holdsAt (fun element => condition (element.value? attr)) i =
      (Document.read text).holdsAt (fun element => condition (element.value? attr)) i := by
  by_cases other : i = tab
  · obtain ⟨element,changed,found,there,_,kept⟩ := refocused.here
    have before : (Document.read text).elements[i]? = some element := by rw [other]; exact found
    have after : (Document.read next).elements[i]? = some changed := by rw [other]; exact there
    rw [Document.holdsAt,Document.holdsAt,before,after]
    exact congrArg condition (kept attr apart)
  · exact refocused.holdsAt_other _ (fun first second alike => congrArg condition (alike.value attr)) i other

theorem holdsAt_here (refocused : Refocused text next tab value) (condition : Element → Bool) (answer : Bool)
    (follows : ∀ element : Element, element.value? "tabindex" = some value → condition element = answer) :
    (Document.read next).holdsAt condition tab = answer := by
  obtain ⟨_,changed,_,there,set,_⟩ := refocused.here
  have after : (Document.read next).elements[tab]? = some changed := there
  rw [Document.holdsAt,after]
  exact follows changed set

theorem saysTrue (refocused : Refocused text next tab value) :
    (Document.read next).saysTrue "aria-selected" = (Document.read text).saysTrue "aria-selected" :=
  funext fun i => refocused.holdsAt_value "aria-selected" (by decide) isTrue i

/-- No template decides about a tab after its place was set. -/
theorem isUncertain (refocused : Refocused text next tab value) (static : isDynamicValue (some value) = false)
    (certain : isUncertain (Document.read text) tab = false) :
    isUncertain (Document.read next) = TabRovingFocus.isUncertain (Document.read text) := by
  have selected (i : Nat) : (Document.read next).isMadeByTemplate "aria-selected" i =
      (Document.read text).isMadeByTemplate "aria-selected" i :=
    refocused.holdsAt_value "aria-selected" (by decide) isDynamicValue i
  funext i
  by_cases other : i = tab
  · subst other
    obtain ⟨_,plain⟩ := Bool.or_eq_false_iff.mp certain
    rw [certain,TabRovingFocus.isUncertain,selected,plain,Bool.or_false]
    exact refocused.holdsAt_here _ false fun element set => by rw [set,static]
  · have index : (Document.read next).isMadeByTemplate "tabindex" i =
        (Document.read text).isMadeByTemplate "tabindex" i :=
      refocused.holdsAt_other _ (fun first second alike => congrArg isDynamicValue (alike.value "tabindex")) i other
    rw [TabRovingFocus.isUncertain,TabRovingFocus.isUncertain,index,selected]

theorem isMisplaced_here (refocused : Refocused text next tab value)
    (place : value = placeOf (Document.read text) tab) : isMisplaced (Document.read next) tab = false := by
  obtain ⟨_,changed,_,there,set,_⟩ := refocused.here
  refine isMisplaced_of_value there ?_
  rw [set,place,placeOf,placeOf,refocused.saysTrue]

theorem isMisplaced_other (refocused : Refocused text next tab value) (i : Nat) (other : i ≠ tab) :
    isMisplaced (Document.read next) i = isMisplaced (Document.read text) i := by
  rw [isMisplaced,isMisplaced,refocused.saysTrue,
    refocused.holdsAt_other (·.inFocusOrder) (fun _ _ alike => alike.inFocusOrder) i other,
    refocused.holdsAt_other (fun element => element.focusIndex? == some 0)
      (fun _ _ alike => by rw [alike.focusIndex?]) i other]

theorem demands (refocused : Refocused text next tab value) (place : value = placeOf (Document.read text) tab)
    (wanted : demands (Document.read text) tab = true) (i : Nat) :
    TabRovingFocus.demands (Document.read next) i =
      (TabRovingFocus.demands (Document.read text) i && i != tab) := by
  have groups : groups (Document.read next) = TabRovingFocus.groups (Document.read text) :=
    groups_congr refocused.traits
  have static : isDynamicValue (some value) = false := by
    rw [place,placeOf]
    split_ifs <;> decide
  have certain : TabRovingFocus.isUncertain (Document.read text) tab = false := by
    obtain ⟨among,_⟩ := Bool.and_eq_true_iff.mp wanted
    obtain ⟨group,_,holds⟩ := List.any_eq_true.mp among
    simp only [isJudged,Bool.and_eq_true,Bool.not_eq_true',List.any_eq_false,List.contains_iff_mem] at holds
    exact Bool.eq_false_iff.mpr (holds.1.1 tab holds.2)
  have judged : isJudged (Document.read next) = isJudged (Document.read text) := by
    funext group
    rw [isJudged,isJudged,refocused.isUncertain static certain,refocused.saysTrue]
  rw [TabRovingFocus.demands,TabRovingFocus.demands,groups,judged]
  by_cases other : i = tab
  · rw [other,refocused.isMisplaced_here place]
    simp
  · rw [refocused.isMisplaced_other i other]
    simp [other]

end Refocused

def demand (text : List Char) : Nat :=
  (List.range (elements text).length).countP (demands (Document.read text))

theorem lt_of_demands {text : List Char} {tab : Nat} (wanted : demands (Document.read text) tab = true) :
    tab < (elements text).length := by
  obtain ⟨element,found,_⟩ := Document.holdsAt_some _ _ _ (isTab_of_demands wanted)
  exact (List.getElem?_eq_some_iff.mp found).1

theorem countP_without (numbers : List Nat) (distinct : numbers.Nodup) (condition : Nat → Bool) (number : Nat)
    (member : number ∈ numbers) (holds : condition number = true) :
    numbers.countP (fun i => condition i && i != number) + 1 = numbers.countP condition := by
  have inside : number ∈ numbers.filter condition := List.mem_filter.mpr ⟨member,holds⟩
  have rest : numbers.filter (fun i => condition i && i != number) = (numbers.filter condition).erase number := by
    rw [List.Nodup.erase_eq_filter (distinct.filter condition),List.filter_filter]
    exact List.filter_congr fun i _ => Bool.and_comm _ _
  rw [List.countP_eq_length_filter,List.countP_eq_length_filter,rest,List.length_erase_of_mem inside]
  have positive := List.length_pos_of_mem inside
  omega

theorem demand_of_refocused {text next : List Char} {tab : Nat}
    (refocused : Refocused text next tab (placeOf (Document.read text) tab))
    (wanted : demands (Document.read text) tab = true) : demand next + 1 = demand text := by
  have size := congrArg List.length refocused.traits
  rw [List.length_map,List.length_map] at size
  have fewer : demands (Document.read next) = fun i => demands (Document.read text) i && i != tab :=
    funext (refocused.demands rfl wanted)
  rw [demand,demand,size,fewer]
  exact countP_without _ List.nodup_range _ tab (List.mem_range.mpr (lt_of_demands wanted)) wanted

theorem countP_range (elements : List Element) (condition : Element → Bool) :
    (List.range elements.length).countP (fun i => elements[i]?.any condition) = elements.countP condition := by
  induction elements using List.reverseRecOn with
  | nil => rfl
  | append_singleton front last ih =>
    rw [List.length_append,List.length_singleton,List.range_succ,List.countP_append,List.countP_append,← ih]
    congr 1
    · refine List.countP_congr fun i inside => ?_
      rw [List.getElem?_append_left (List.mem_range.mp inside)]
    · simp

theorem demand_le (text : List Char) : demand text ≤ (elements text).countP (·.hasRole "tab") := by
  rw [← countP_range,demand]
  exact List.countP_mono_left fun i _ wanted => isTab_of_demands wanted

section Rounds

variable {analyzer : Analyzer} {severity : Severity} {text : List Char}

theorem offers_iff (runs : analyzer.Runs (rule severity)) (offset : Nat) (fix : Fix) :
    Report.Offers (analyzer.analyze text).violations offset fix ↔
      ∃ tab element, demands (Document.read text) tab = true ∧ (elements text)[tab]? = some element ∧
        fix = .setAttribute "tabindex" (placeOf (Document.read text) tab) ∧ offset = element.start := by
  have found : analyzer.found (rule severity) (Document.read text) = check (head severity) (Document.read text) :=
    Analyzer.found_of_answer (run_eq (Document.read_linked text Filter.keep) (head severity))
  have offsets {tab : Nat} {element : Element} (present : (elements text)[tab]? = some element) :
      min ((Document.read text).openTagLocation tab).offset (byteLength text) = element.start := by
    have inside := Element.openStop_le (List.mem_of_getElem? present)
    rw [Document.openTagLocation_offset present]
    omega
  rw [runs.offers_iff,found]
  constructor
  · rintro ⟨violation,member,fixes,place⟩
    obtain ⟨tab,wanted,rfl,location⟩ :=
      (check_fixes _ _ fix violation.location).mp ⟨violation,member,fixes,rfl⟩
    obtain ⟨element,present,_⟩ := Document.holdsAt_some _ _ _ (isTab_of_demands wanted)
    exact ⟨tab,element,wanted,present,rfl,by rw [← place,location,offsets present]⟩
  · rintro ⟨tab,element,wanted,present,rfl,rfl⟩
    obtain ⟨violation,member,fixes,location⟩ :=
      (check_fixes (head severity) _ _ _).mpr ⟨tab,wanted,rfl,rfl⟩
    exact ⟨violation,member,fixes,by rw [location,offsets present]⟩

theorem exists_planned {tab : Nat} {element : Element} (wanted : demands (Document.read text) tab = true)
    (found : (elements text)[tab]? = some element) :
    ∃ edit, (Fix.setAttribute "tabindex" (placeOf (Document.read text) tab)).plan text element.start Filter.keep =
      .ok (.applied edit) := by
  have present := found
  rw [elements_getElem?] at found
  obtain ⟨node,known,rfl⟩ := Option.map_eq_some_iff.mp found
  have member := List.mem_of_getElem? known
  have spans := (outlineNodes_forest text).spans tab node known
  unfold Node.Spans at spans
  obtain ⟨parent,planned⟩ := Fix.plan_inside
    (.setAttribute "tabindex" (placeOf (Document.read text) tab)) text node member node.start le_rfl (by omega)
    (by simp [Fix.invalidName?]; decide)
  have outcome := Fix.planOn_setAttribute text ⟨node,parent⟩ "tabindex" (placeOf (Document.read text) tab)
  have start : (Element.ofNode text node).start = node.start := rfl
  rw [start,planned]
  split_ifs at outcome with held
  · -- A tab that has its place already is not misplaced.
    rw [Attribute.Content.holds,Option.any_eq_true] at held
    obtain ⟨attr,first,same⟩ := held
    obtain ⟨set,_⟩ : attr.value = placeOf (Document.read text) tab ∧ attr.quote = .double := by simpa using same
    have placed : (Element.ofNode text node).value? "tabindex" = some (placeOf (Document.read text) tab) := by
      rw [Element.value?_profile,Attribute.Content.value?]
      have read : (Element.ofNode text node).profile.attributes =
          (Fix.writtenAttributes text node).map Attribute.content := rfl
      rw [read,first,Option.map_some,set]
    have settled := isMisplaced_of_value present placed
    obtain ⟨_,misplaced⟩ := Bool.and_eq_true_iff.mp wanted
    rw [settled] at misplaced
    contradiction
  · exact outcome

theorem exists_refocused (regular : RegularMarkup text) {tab : Nat} {element : Element}
    (found : (elements text)[tab]? = some element) {edit : Edit}
    (planned : (Fix.setAttribute "tabindex" (placeOf (Document.read text) tab)).plan text element.start Filter.keep =
      .ok (.applied edit)) :
    ∃ next, edit.apply text = .ok next ∧
      Refocused text next tab (placeOf (Document.read text) tab) ∧ RegularMarkup next := by
  have present := found
  rw [elements_getElem?] at found
  obtain ⟨node,known,rfl⟩ := Option.map_eq_some_iff.mp found
  have member := List.mem_of_getElem? known
  obtain ⟨tag,is⟩ := regular node member
  obtain ⟨before,after,written⟩ := is.exists_writtenIn member
  have valid := Fix.valid_of_planned planned
  obtain ⟨parent,same⟩ := Fix.plan_inside _ text node member node.start le_rfl
    (by rw [written.openStop]; omega) valid
  have made := Fix.planOn_regular written _ rfl valid parent edit (same.symm.trans planned)
  refine ⟨_,made,refocused_of_profiles present ?_ ?_ (Fix.map_profile_after written member _ valid),
    written.regular_rewrite member rfl rfl regular⟩
  · rw [placeOf]
    split_ifs <;> decide
  · rw [placeOf]
    split_ifs <;> decide

theorem improve?_some (runs : analyzer.Runs (rule severity)) (regular : RegularMarkup text) {next : List Char}
    (improved : Session.improve? analyzer text = some next) :
    ∃ tab element edit, demands (Document.read text) tab = true ∧ (elements text)[tab]? = some element ∧
      (Fix.setAttribute "tabindex" (placeOf (Document.read text) tab)).plan text element.start Filter.keep =
        .ok (.applied edit) ∧ edit.apply text = .ok next ∧
      Refocused text next tab (placeOf (Document.read text) tab) ∧ RegularMarkup next := by
  obtain ⟨edit,first,made,_⟩ := (Session.improve?_eq_some_iff analyzer).mp improved
  obtain ⟨violation,reported,fix,fixes,planned⟩ := Session.planned_of_firstEdit? analyzer first
  obtain ⟨tab,element,wanted,found,rfl,place⟩ :=
    (offers_iff runs violation.location.offset fix).mp ⟨violation,reported,fixes,rfl⟩
  rw [place,runs.keeps] at planned
  obtain ⟨other,same,refocused,still⟩ := exists_refocused regular found planned
  obtain rfl := Except.ok.inj (same.symm.trans made)
  exact ⟨tab,element,edit,wanted,found,planned,made,refocused,still⟩

theorem improve?_none (runs : analyzer.Runs (rule severity)) (regular : RegularMarkup text)
    (rest : Session.improve? analyzer text = none) : ∀ tab, demands (Document.read text) tab = false := by
  intro tab
  rw [Bool.eq_false_iff]
  intro wanted
  obtain ⟨element,found,_⟩ := Document.holdsAt_some _ _ _ (isTab_of_demands wanted)
  obtain ⟨violation,reported,fixes,place⟩ :=
    (offers_iff runs element.start _).mpr ⟨tab,element,wanted,found,rfl,rfl⟩
  rcases Session.exhausted_or_starved analyzer Filter.keep runs.keeps text rest with exhausted | starved
  · obtain ⟨edit,planned⟩ := exists_planned wanted found
    have unchanged := exhausted violation reported _ fixes edit (by rw [place,runs.keeps]; exact planned)
    obtain ⟨next,made,refocused,_⟩ := exists_refocused regular found planned
    obtain rfl := Except.ok.inj (made.symm.trans unchanged)
    have fewer := demand_of_refocused refocused wanted
    omega
  · obtain ⟨violation,reported,fix,fixes,_,quote,_⟩ := starved
    obtain ⟨tab,_,_,_,rfl,_⟩ :=
      (offers_iff runs violation.location.offset fix).mp ⟨violation,reported,fixes,rfl⟩
    simp only [Fix.setsQuote,placeOf] at quote
    split_ifs at quote <;> contradiction

/-- Rounds of mending, each with the tab whose place it sets. -/
inductive Turns (analyzer : Analyzer) : List Char → List Nat → List Char → Prop
  | rest (text : List Char) : Turns analyzer text [] text
  | turn {text next last : List Char} {tab : Nat} {tabs : List Nat} {element : Element} {value : String} {edit : Edit}
      (found : (elements text)[tab]? = some element) (isTab : element.hasRole "tab" = true)
      (round : Session.improve? analyzer text = some next)
      (planned : (Fix.setAttribute "tabindex" value).plan text element.start analyzer.filter = .ok (.applied edit))
      (made : edit.apply text = .ok next) (further : Turns analyzer next tabs last) :
      Turns analyzer text (tab :: tabs) last

/-- What mending comes to: no tab is mended twice, and none is left that should get another place. -/
structure Settles (analyzer : Analyzer) (text : List Char) (made : Nat) (report : FixReport) : Prop where
  converged : report.converged = true
  turns : ∃ tabs, Turns analyzer text tabs report.text ∧ tabs.Nodup ∧
    (∀ tab ∈ tabs, demands (Document.read text) tab = true) ∧ report.applied = made + tabs.length
  settled : ∀ tab, demands (Document.read report.text) tab = false

theorem improveWithin_settles (runs : analyzer.Runs (rule severity)) (rounds : Nat) :
    ∀ text made, RegularMarkup text → demand text < rounds →
      Settles analyzer text made (Session.improveWithin analyzer text made rounds) := by
  induction rounds with
  | zero => exact fun _ _ _ none => absurd none (Nat.not_lt_zero _)
  | succ rounds ih =>
    intro text made regular enough
    rw [Session.improveWithin]
    cases improved : Session.improve? analyzer text with
    | none =>
      exact ⟨rfl,⟨[],.rest text,List.nodup_nil,by simp,rfl⟩,improve?_none runs regular improved⟩
    | some next =>
      obtain ⟨tab,element,edit,wanted,found,planned,applied,refocused,still⟩ := improve?_some runs regular improved
      have fewer := demand_of_refocused refocused wanted
      obtain ⟨converged,⟨tabs,turns,distinct,among,count⟩,settled⟩ := ih next (made + 1) still (by omega)
      have isTab : element.hasRole "tab" = true := by
        have holds := isTab_of_demands wanted
        have here : (Document.read text).elements[tab]? = some element := found
        rwa [Document.holdsAt,here] at holds
      have kept (other : Nat) (member : other ∈ tabs) : demands (Document.read text) other = true ∧ other ≠ tab := by
        have still := among other member
        rw [refocused.demands rfl wanted] at still
        simpa using still
      refine ⟨converged,⟨tab :: tabs,?_,?_,?_,?_⟩,settled⟩
      · exact .turn found isTab improved (by rw [runs.keeps]; exact planned) applied turns
      · exact List.nodup_cons.mpr ⟨fun again => (kept tab again).2 rfl,distinct⟩
      · exact List.forall_mem_cons.mpr ⟨wanted,fun other member => (kept other member).1⟩
      · rw [count,List.length_cons]
        omega

end Rounds

end Rules.TabRovingFocus

open Rules in
/-- Mending the order of focus settles every text with regular tags: within one round more than there are tabs
it comes to rest, with at most one fix for each tab, and nothing that can be mended is left. Of every group
that is judged and has one selected tab, that tab has the first place then, and no other has one. -/
theorem tabFocus_settles (analyzer : Analyzer) (severity : Severity)
    (runs : analyzer.Runs (TabRovingFocus.rule severity)) (session : Session)
    (regular : RegularMarkup session.text) (maxPasses : Nat)
    (enough : (elements session.text).countP (·.hasRole "tab") < maxPasses) :
    let report := (session.fixAll analyzer maxPasses).1
    let doc := Document.read report.text
    report.converged = true ∧
      (∃ tabs, TabRovingFocus.Turns analyzer session.text tabs report.text ∧ tabs.Nodup ∧
        report.applied = tabs.length) ∧
      (∀ violation ∈ (analyzer.analyze report.text).violations, violation.fixes = []) ∧
      ∃ groups, TabRovingFocus.fetchGroups doc = some groups ∧
        ∀ group ∈ groups, group.tabs.any (doc.holdsAt TabRovingFocus.isLeftOpen) = false →
          ∀ active, group.tabs.filter (doc.saysTrue "aria-selected") = [active] →
            doc.holdsAt (fun element => element.focusIndex? == some 0) active = true ∧
              ∀ tab ∈ group.tabs, tab ≠ active → doc.holdsAt (·.inFocusOrder) tab = false := by
  intro report doc
  have few := TabRovingFocus.demand_le session.text
  obtain ⟨converged,⟨tabs,turns,distinct,_,count⟩,settled⟩ :=
    TabRovingFocus.improveWithin_settles runs maxPasses session.text 0 regular (by omega)
  have same : report = Session.improveWithin analyzer session.text 0 maxPasses :=
    congrArg Prod.fst (Session.fixAll_eq analyzer session maxPasses)
  rw [← same] at converged turns count settled
  refine ⟨converged,⟨tabs,turns,distinct,by rw [← Nat.zero_add tabs.length]; exact count⟩,
    fun violation reported => ?_,_,TabRovingFocus.fetchGroups_eq (Document.read_linked report.text Filter.keep),?_⟩
  · rw [List.eq_nil_iff_forall_not_mem]
    intro fix fixes
    obtain ⟨tab,_,wanted,_⟩ :=
      (TabRovingFocus.offers_iff runs violation.location.offset fix).mp ⟨violation,reported,fixes,rfl⟩
    have none : TabRovingFocus.demands (Document.read report.text) tab = false := settled tab
    rw [none] at wanted
    contradiction
  · rw [TabRovingFocus.isUncertain_eq]
    exact TabRovingFocus.settled_of_demands settled

open Rules in
theorem tabFocus_settles_tablist :
    let analyzer : Analyzer :=
      ⟨⟨[TabRovingFocus.rule]⟩,{ analyzer := { included := [],excluded := [],respectAllowComments := false } },Filter.keep⟩
    let text := "<ul role=\"tablist\"><li role=\"tab\" tabindex=\"0\"><a role=\"tab\" aria-selected=\"true\"></ul>".toList
    (elements text).countP (·.hasRole "tab") = 2 ∧
      ((Session.fixAll analyzer { text } 3).1).converged = true ∧
      ∀ violation ∈ (analyzer.analyze ((Session.fixAll analyzer { text } 3).1).text).violations,
        violation.fixes = [] := by
  intro analyzer text
  have two : (elements text).countP (·.hasRole "tab") = 2 := by decide +kernel
  let role (name : String) := RegularAttribute.added "role" name (by decide)
  let list := RegularTag.ofQuoted "ul".toList ⟨'u',['l'],rfl,rfl⟩ (List.all_eq_true.mp rfl) [role "tablist"] (by
    simp [role])
  let item := RegularTag.ofQuoted "li".toList ⟨'l',['i'],rfl,rfl⟩ (List.all_eq_true.mp rfl)
    [role "tab",.added "tabindex" "0" (by decide)] (by simp [role])
  let link := RegularTag.ofQuoted "a".toList ⟨'a',[],rfl,rfl⟩ (List.all_eq_true.mp rfl)
    [role "tab",.added "aria-selected" "true" (by decide)] (by simp [role])
  have tags : (outlineNodes text).map (fun node => slice? text node.start node.openStop) =
      [some list.render,some item.render,some link.render] := by decide +kernel
  have regular : RegularMarkup text := by
    intro node member
    have sliced := List.mem_map_of_mem (f := fun node => slice? text node.start node.openStop) member
    rw [tags] at sliced
    simp only [List.mem_cons,List.not_mem_nil,or_false] at sliced
    rcases sliced with same | same | same
    · exact ⟨list,same⟩
    · exact ⟨item,same⟩
    · exact ⟨link,same⟩
  obtain ⟨converged,_,unfixable,_⟩ := tabFocus_settles analyzer .warning ⟨rfl,by decide +kernel,rfl,rfl⟩ { text }
    regular 3 (by rw [two]; decide)
  exact ⟨two,converged,unfixable⟩

end AccessibleMarkup
