import AccessibleMarkup.Proofs.FixDemands
import AccessibleMarkup.Proofs.PlainRepairs
import Mathlib

/-! How much there is to mend in plain markup. A fix of an attribute changes the value of that attribute
alone, and what the rules ask for depends on few values: those that no fix changes, those that become
right once and for all, and the two that follow from them, the place in the order of focus and the
visibility of a panel. -/
namespace AccessibleMarkup

open Text Markup

/-- The element that a tag makes, wherever it stands. -/
def Markup.PlainTag.alone (tag : PlainTag) : Element :=
  { name := asciiLower tag.label, start := 0, openStop := 0, closeStart := 0, stop := 0
    extent := .unterminated, parent := none, depth := 0, detached := false
    attributes := PlainAttribute.placeAll tag.attributes 0
    role := role? (asciiLower tag.label) (PlainAttribute.placeAll tag.attributes 0) }

theorem Markup.PlainTag.alone_value (tag : PlainTag) (name : String) :
    tag.alone.value? name = tag.value? name :=
  attributeValue?_placeAll _ _ _

theorem Markup.Element.StandsFor.alike {element : Element} {before : List Token} {tag : PlainTag}
    (stands : element.StandsFor before tag) : element.Alike tag.alone := by
  have values (name : String) : element.value? name = tag.alone.value? name := by
    rw [tag.alone_value,Element.value?,stands.attributes,attributeValue?_placeAll]
    rfl
  refine ⟨stands.name,?_,values⟩
  rw [stands.role,stands.name]
  exact role?_congr _ _ _ fun name _ => values name

namespace Markup.Element.Alike

variable {first second : Element}

theorem writesRole (alike : first.Alike second) (role : String) :
    first.writesRole role = second.writesRole role := by
  have written : writtenRole? first.attributes = writtenRole? second.attributes := by
    have value : attributeValue? first.attributes "role" = attributeValue? second.attributes "role" :=
      alike.value "role"
    rw [writtenRole?,writtenRole?,value]
  rw [Element.writesRole,Element.writesRole,written]

theorem state? (alike : first.Alike second) :
    Rules.PanelVisibility.state? first = Rules.PanelVisibility.state? second := by
  have attr : Rules.PanelVisibility.stateAttribute? first = Rules.PanelVisibility.stateAttribute? second := by
    rw [Rules.PanelVisibility.stateAttribute?,Rules.PanelVisibility.stateAttribute?,Element.hasRole,
      Element.hasRole,alike.role,alike.has]
  simp only [Rules.PanelVisibility.state?,attr,alike.value]

theorem controls {controller controllerToo : Element} (alike : controller.Alike controllerToo)
    (panels : first.Alike second) : controller.controls first = controllerToo.controls second := by
  rw [Element.controls,Element.controls,alike.value,panels.value]

end Markup.Element.Alike

def markerNames : List String := ["aria-live","aria-hidden"]

def requiredNames : List String := Rules.RequiredState.requirements.map (·.name)

def judgedNames : List String :=
  (Rules.AriaAttributeValue.singleValued ++ Rules.AriaAttributeValue.manyValued).map (·.1)

def settledNames : List String := judgedNames ++ ["aria-level","aria-valuenow"]

def mendedNames : List String := ["tabindex","hidden"] ++ settledNames

def fixedNames : List String :=
  roleAttributes ++ ["aria-controls","id","disabled","contenteditable","controls"]

theorem mended_lower : ∀ name ∈ mendedNames, asciiLower name = name := by
  decide

theorem mended_same (key name : String) (mended : key ∈ mendedNames) (other : name ∈ mendedNames) :
    sameIgnoringCase key name = (key == name) := by
  rw [sameIgnoringCase,mended_lower key mended,mended_lower name other]

theorem mended_apart (key name : String) (mended : key ∈ mendedNames) (other : name ∈ mendedNames)
    (apart : key ≠ name) : sameIgnoringCase key name = false := by
  rw [mended_same key name mended other]
  exact beq_false_of_ne apart

theorem settledNames_distinct : settledNames.Pairwise fun first second => first ≠ second := by
  decide

theorem mended_fixed : ∀ key ∈ mendedNames, ∀ name ∈ fixedNames, sameIgnoringCase key name = false := by
  decide

theorem judged_of_violated (attr : Attribute) (legal : List String)
    (illegal : Rules.AriaAttributeValue.violated? attr = some legal) :
    asciiLower attr.name ∈ judgedNames := by
  have listed (table : List (String × List String)) (found : List String)
      (known : Rules.AriaAttributeValue.legalValues? table attr.name = some found) :
      ∃ entry ∈ table, sameIgnoringCase attr.name entry.1 = true := by
    obtain ⟨entry,first,_⟩ := Option.map_eq_some_iff.mp known
    have same := List.find?_some first
    exact ⟨entry,List.mem_of_find?_eq_some first,same⟩
  have named (entry : String × List String)
      (member : entry ∈ Rules.AriaAttributeValue.singleValued ++ Rules.AriaAttributeValue.manyValued)
      (same : sameIgnoringCase attr.name entry.1 = true) : asciiLower attr.name ∈ judgedNames := by
    have judged : entry.1 ∈ judgedNames := List.mem_map_of_mem member
    rw [sameIgnoringCase,beq_iff_eq] at same
    rw [same,mended_lower entry.1 (List.mem_append_right _ (List.mem_append_left _ judged))]
    exact judged
  unfold Rules.AriaAttributeValue.violated? at illegal
  dsimp only at illegal
  split at illegal
  · contradiction
  · split at illegal
    next found single =>
      obtain ⟨entry,member,same⟩ := listed _ found single
      exact named entry (List.mem_append_left _ member) same
    next =>
      obtain ⟨entry,member,same⟩ := listed _ legal (Option.filter_eq_some_iff.mp illegal).1
      exact named entry (List.mem_append_right _ member) same

namespace Markup.PlainTag.Updates

variable {tag changed : PlainTag} {key : String} {value : Option String}

theorem kept (updates : tag.Updates changed key value) (name : String)
    (apart : sameIgnoringCase key name = false) : changed.alone.value? name = tag.alone.value? name := by
  rw [alone_value,alone_value,updates.value,apart,if_neg Bool.false_ne_true]

theorem given (updates : tag.Updates changed key value) (name : String)
    (same : sameIgnoringCase key name = true) : changed.alone.value? name = value := by
  rw [alone_value,updates.value,same,if_pos rfl]

theorem fixed (updates : tag.Updates changed key value) (mended : key ∈ mendedNames) (name : String)
    (member : name ∈ fixedNames) : changed.alone.value? name = tag.alone.value? name :=
  updates.kept name (mended_fixed key mended name member)

theorem alone_name (updates : tag.Updates changed key value) : changed.alone.name = tag.alone.name := by
  change asciiLower (String.ofList changed.name) = asciiLower (String.ofList tag.name)
  rw [updates.name]

theorem alone_role (updates : tag.Updates changed key value) (mended : key ∈ mendedNames) :
    changed.alone.role = tag.alone.role := by
  have same : ∀ name ∈ roleAttributes, attributeValue? changed.alone.attributes name =
      attributeValue? tag.alone.attributes name := fun name member =>
    updates.fixed mended name (List.mem_append_left _ member)
  change role? changed.alone.name changed.alone.attributes = role? tag.alone.name tag.alone.attributes
  rw [updates.alone_name,role?_congr _ _ _ same]

theorem writesRole (updates : tag.Updates changed key value) (mended : key ∈ mendedNames) (role : String) :
    changed.alone.writesRole role = tag.alone.writesRole role := by
  have same : attributeValue? changed.alone.attributes "role" = attributeValue? tag.alone.attributes "role" :=
    updates.fixed mended "role" (by decide)
  rw [Element.writesRole,Element.writesRole,writtenRole?,writtenRole?,same]

theorem takesFocus (updates : tag.Updates changed key value) (mended : key ∈ mendedNames) :
    changed.alone.takesFocus = tag.alone.takesFocus := by
  have fixed (name : String) (member : name ∈ fixedNames) := updates.fixed mended name member
  have disabled := fixed "disabled" (by decide)
  have editable := fixed "contenteditable" (by decide)
  have href := fixed "href" (by decide)
  have kind := fixed "type" (by decide)
  have controls := fixed "controls" (by decide)
  simp only [Element.takesFocus,Element.isEditable,Element.isControl,Element.has_eq,updates.alone_name,
    disabled,editable,href,kind,controls]

theorem focusIndex? (updates : tag.Updates changed key value) (mended : key ∈ mendedNames)
    (other : key ≠ "tabindex") : changed.alone.focusIndex? = tag.alone.focusIndex? := by
  have apart := mended_apart key "tabindex" mended (by decide) other
  rw [Element.focusIndex?,Element.focusIndex?,Element.tabIndex?,Element.tabIndex?,
    updates.kept "tabindex" apart,updates.takesFocus mended]

theorem state? (updates : tag.Updates changed key value) (mended : key ∈ mendedNames)
    (otherThanSelected : key ≠ "aria-selected") (otherThanExpanded : key ≠ "aria-expanded") :
    Rules.PanelVisibility.state? changed.alone = Rules.PanelVisibility.state? tag.alone := by
  have selected := mended_apart key _ mended (by decide) otherThanSelected
  have expanded := mended_apart key _ mended (by decide) otherThanExpanded
  have attr : Rules.PanelVisibility.stateAttribute? changed.alone =
      Rules.PanelVisibility.stateAttribute? tag.alone := by
    rw [Rules.PanelVisibility.stateAttribute?,Rules.PanelVisibility.stateAttribute?,Element.hasRole,
      Element.hasRole,updates.alone_role mended,Element.has_eq,Element.has_eq,updates.kept _ expanded]
  have chosen : ∀ name, Rules.PanelVisibility.stateAttribute? tag.alone = some name →
      changed.alone.value? name = tag.alone.value? name := by
    intro name found
    unfold Rules.PanelVisibility.stateAttribute? at found
    split at found
    · rw [← Option.some.inj found]
      exact updates.kept _ selected
    · split at found
      · rw [← Option.some.inj found]
        exact updates.kept _ expanded
      · cases found
  rw [Rules.PanelVisibility.state?,Rules.PanelVisibility.state?,attr]
  cases found : Rules.PanelVisibility.stateAttribute? tag.alone with
  | none => rfl
  | some name =>
    simp only [Option.bind_eq_bind,Option.bind_some,chosen name found]

end Markup.PlainTag.Updates

def isCorrectable (value : String) : Bool :=
  (Rules.AriaAttributeValue.correction? (trim value)).isSome

def weight (name : String) (value : Option String) : Nat :=
  (if markerNames.contains name && value.isSome then 1 else 0) +
    (if requiredNames.contains name && value.isNone then 1 else 0) +
      if judgedNames.contains name && value.any isCorrectable then 1 else 0

def Markup.Element.burden (element : Element) : Nat :=
  (settledNames.map fun name => weight name (element.value? name)).sum

namespace Markup.PlainTag.Updates

variable {tag changed : PlainTag} {key : String} {value : Option String}

theorem burden_eq (updates : tag.Updates changed key value) (mended : key ∈ mendedNames)
    (other : key ∉ settledNames) : changed.alone.burden = tag.alone.burden := by
  rw [Element.burden,Element.burden]
  refine congrArg List.sum (List.map_congr_left fun name member => ?_)
  have apart : key ≠ name := fun same => other (by rw [same]; exact member)
  rw [updates.kept name (mended_apart key name mended (List.mem_append_right _ member) apart)]

theorem burden_lt (updates : tag.Updates changed key value) (settled : key ∈ settledNames)
    (lighter : weight key value < weight key (tag.alone.value? key)) :
    changed.alone.burden < tag.alone.burden := by
  have mended (name : String) (member : name ∈ settledNames) : name ∈ mendedNames :=
    List.mem_append_right _ member
  have keeps (names : List String) (others : ∀ name ∈ names, name ∈ settledNames ∧ key ≠ name) :
      names.map (fun name => weight name (changed.alone.value? name)) =
        names.map fun name => weight name (tag.alone.value? name) := by
    apply List.map_congr_left
    intro name member
    obtain ⟨known,apart⟩ := others name member
    rw [updates.kept name (mended_apart key name (mended key settled) (mended name known) apart)]
  obtain ⟨earlier,later,parts⟩ := List.append_of_mem settled
  have distinct := settledNames_distinct
  rw [parts,List.pairwise_append,List.pairwise_cons] at distinct
  have before := keeps earlier fun name member =>
    ⟨by rw [parts]; exact List.mem_append_left _ member,
      (distinct.2.2 name member key List.mem_cons_self).symm⟩
  have after := keeps later fun name member =>
    ⟨by rw [parts]; exact List.mem_append_right _ (List.mem_cons_of_mem _ member),
      distinct.2.1.1 name member⟩
  rw [Element.burden,Element.burden,parts,List.map_append,List.map_append,List.map_cons,List.map_cons,
    before,after,updates.given key (sameIgnoringCase_refl key)]
  simp only [List.sum_append,List.sum_cons]
  omega

end Markup.PlainTag.Updates

def truth? (value : String) : Option Bool :=
  if ["true","yes","1","on"].contains (asciiLower (trim value)) then some true
  else if ["false","no","0","off"].contains (asciiLower (trim value)) then some false
  else none

theorem truth?_true (value word : String) (same : asciiLower (trim value) = word)
    (listed : ["true","yes","1","on"].contains word = true) : truth? value = some true := by
  rw [truth?,same,if_pos listed]

theorem truth?_false (value word : String) (same : asciiLower (trim value) = word)
    (other : ["true","yes","1","on"].contains word = false)
    (listed : ["false","no","0","off"].contains word = true) : truth? value = some false := by
  rw [truth?,same,other,if_neg Bool.false_ne_true,if_pos listed]

theorem truth?_words : truth? "true" = some true ∧ truth? "false" = some false := by
  decide

theorem truth?_of_correction (value meant : String)
    (correction : Rules.AriaAttributeValue.correction? (trim value) = some meant) :
    truth? meant = truth? value := by
  unfold Rules.AriaAttributeValue.correction? at correction
  split at correction
  all_goals cases correction
  all_goals
    rename_i same
    first
    | rw [truth?_true value _ same (by decide)]
      exact truth?_words.1
    | rw [truth?_false value _ same (by decide) (by decide)]
      exact truth?_words.2

def settledValue (value : Option String) (start : Option Bool) : Option Bool :=
  match value with
  | some text => truth? text
  | none => start

namespace Markup.Element

/-- The state that an element of the role starts from where `aria-expanded` is missing. -/
def expandedStart? (element : Element) : Option Bool :=
  if element.writesRole "combobox" then some false else none

/-- What the state of an element comes to when all is mended: a wrong value is corrected, and a state
that is required and missing starts as false. -/
def settledState? (element : Element) : Option Bool :=
  if element.hasRole "tab" then settledValue (element.value? "aria-selected") (some false)
  else settledValue (element.value? "aria-expanded") element.expandedStart?

end Markup.Element

theorem settledState?_of_state (element : Element) (name : String) (active : Bool)
    (state : Rules.PanelVisibility.state? element = some (name,active)) :
    element.settledState? = some active := by
  unfold Rules.PanelVisibility.state? at state
  obtain ⟨attr,chosen,state⟩ := Option.bind_eq_some_iff.mp state
  obtain ⟨value,written,state⟩ := Option.bind_eq_some_iff.mp state
  have said : truth? value = some active := by
    dsimp only at state
    split_ifs at state with dynamic
    · cases state
    · split at state
      next same =>
        obtain ⟨_,rfl⟩ := Prod.mk.inj (Option.some.inj state)
        exact truth?_true value _ same (by decide)
      next same =>
        obtain ⟨_,rfl⟩ := Prod.mk.inj (Option.some.inj state)
        exact truth?_false value _ same (by decide) (by decide)
      next => cases state
  unfold Rules.PanelVisibility.stateAttribute? at chosen
  unfold Element.settledState?
  split at chosen
  next tab =>
    obtain rfl := Option.some.inj chosen
    rw [if_pos tab,written]
    exact said
  next other =>
    split at chosen
    · obtain rfl := Option.some.inj chosen
      rw [if_neg other,written]
      exact said
    · cases chosen

theorem Markup.PlainTag.Updates.settledState? {tag changed : PlainTag} {key : String} {value : Option String}
    (updates : tag.Updates changed key value) (mended : key ∈ mendedNames)
    (selected : key = "aria-selected" →
      settledValue value (some false) = settledValue (tag.alone.value? key) (some false))
    (expanded : key = "aria-expanded" →
      settledValue value tag.alone.expandedStart? =
        settledValue (tag.alone.value? key) tag.alone.expandedStart?) :
    changed.alone.settledState? = tag.alone.settledState? := by
  have start : changed.alone.expandedStart? = tag.alone.expandedStart? := by
    rw [Element.expandedStart?,Element.expandedStart?,updates.writesRole mended]
  have ofSelected : settledValue (changed.alone.value? "aria-selected") (some false) =
      settledValue (tag.alone.value? "aria-selected") (some false) := by
    by_cases same : key = "aria-selected"
    · have here := selected same
      subst same
      rw [updates.given _ (sameIgnoringCase_refl _),here]
    · rw [updates.kept _ (mended_apart key _ mended (by decide) same)]
  have ofExpanded : settledValue (changed.alone.value? "aria-expanded") tag.alone.expandedStart? =
      settledValue (tag.alone.value? "aria-expanded") tag.alone.expandedStart? := by
    by_cases same : key = "aria-expanded"
    · have here := expanded same
      subst same
      rw [updates.given _ (sameIgnoringCase_refl _),here]
    · rw [updates.kept _ (mended_apart key _ mended (by decide) same)]
  rw [Element.settledState?,Element.settledState?,Element.hasRole,Element.hasRole,
    updates.alone_role mended,start,ofSelected,ofExpanded]

namespace Markup.Element

/-- One for an element whose place in the order of focus does not go with its selection. -/
def focusGap (element : Element) : Nat :=
  if isTrue (element.value? "aria-selected") then if element.focusIndex? = some 0 then 0 else 1
  else if element.inFocusOrder then 1 else 0

def isClaimed (panel : Element) (elements : List Element) (active : Bool) : Bool :=
  elements.any fun controller =>
    controller.controls panel && (Rules.PanelVisibility.state? controller).any (·.2 == active)

/-- One for a panel that is hidden under an active element or shown under an inactive one. -/
def panelGap (panel : Element) (elements : List Element) : Nat :=
  if panel.isClaimed elements (panel.has "hidden") then 1 else 0

/-- The second element controls the same panels in the same state, under the same identifier. -/
structure SameControl (first second : Element) : Prop where
  refers : second.value? "aria-controls" = first.value? "aria-controls"
  id : second.value? "id" = first.value? "id"
  state : Rules.PanelVisibility.state? second = Rules.PanelVisibility.state? first

theorem isClaimed_congr (left right : List Element) (first second panel other : Element)
    (same : first.SameControl second) (id : other.value? "id" = panel.value? "id") (active : Bool) :
    other.isClaimed (left ++ second :: right) active = panel.isClaimed (left ++ first :: right) active := by
  have controls (controller : Element) : controller.controls other = controller.controls panel := by
    rw [Element.controls,Element.controls,id]
  have replaced : second.controls panel = first.controls panel := by
    rw [Element.controls,Element.controls,same.refers]
  simp only [isClaimed,List.any_append,List.any_cons,controls,replaced,same.state]

end Markup.Element

def disorder (elements : List Element) : Nat :=
  (elements.map fun element => element.focusGap + element.panelGap elements).sum

theorem disorder_lt (left right : List Element) (first second : Element) (same : first.SameControl second)
    (less : second.focusGap + second.panelGap (left ++ second :: right) <
      first.focusGap + first.panelGap (left ++ first :: right)) :
    disorder (left ++ second :: right) < disorder (left ++ first :: right) := by
  have others (elements : List Element) :
      (elements.map fun element => element.focusGap + element.panelGap (left ++ second :: right)) =
        elements.map fun element => element.focusGap + element.panelGap (left ++ first :: right) := by
    apply List.map_congr_left
    intro element _
    rw [Element.panelGap,Element.panelGap,
      Element.isClaimed_congr left right first second element element same rfl]
  unfold disorder
  rw [List.map_append,List.map_append,List.map_cons,List.map_cons,others left,others right]
  simp only [List.sum_append,List.sum_cons]
  omega

/-- No two elements that control the same panel come to contradict each other. -/
def Agree (elements : List Element) : Prop :=
  ∀ panel ∈ elements, ∀ first ∈ elements, ∀ second ∈ elements,
    first.controls panel = true → second.controls panel = true →
      first.settledState? = some true → second.settledState? ≠ some false

instance (elements : List Element) : Decidable (Agree elements) :=
  inferInstanceAs (Decidable (∀ panel ∈ elements, ∀ first ∈ elements, ∀ second ∈ elements,
    first.controls panel = true → second.controls panel = true →
      first.settledState? = some true → second.settledState? ≠ some false))

namespace Markup.Element

/-- The second element controls the same panels and comes to the same state. -/
structure SameTies (first second : Element) : Prop where
  refers : second.value? "aria-controls" = first.value? "aria-controls"
  id : second.value? "id" = first.value? "id"
  settled : second.settledState? = first.settledState?

end Markup.Element

theorem Agree.of_ties {before after : List Element} (agree : Agree before)
    (ties : ∀ element ∈ after, (∃ old ∈ before, old.SameTies element) ∨
      (element.value? "aria-controls" = none ∧ element.value? "id" = none)) : Agree after := by
  have controls {first second panel other : Element} (same : first.SameTies second)
      (panels : panel.SameTies other) : second.controls other = first.controls panel := by
    rw [Element.controls,Element.controls,same.refers,panels.id]
  have owns (controller panel : Element) (controlled : controller.controls panel = true)
      (member : panel ∈ after) : ∃ old ∈ before, old.SameTies panel := by
    rcases ties panel member with known | ⟨_,anonymous⟩
    · exact known
    · simp [Element.controls,anonymous] at controlled
  have refers (controller panel : Element) (controlled : controller.controls panel = true)
      (member : controller ∈ after) : ∃ old ∈ before, old.SameTies controller := by
    rcases ties controller member with known | ⟨idle,_⟩
    · exact known
    · simp [Element.controls,idle] at controlled
  intro panel panelMember first firstMember second secondMember firstControls secondControls shown
  obtain ⟨oldPanel,oldPanelMember,panels⟩ := owns first panel firstControls panelMember
  obtain ⟨oldFirst,oldFirstMember,firsts⟩ := refers first panel firstControls firstMember
  obtain ⟨oldSecond,oldSecondMember,seconds⟩ := refers second panel secondControls secondMember
  rw [controls firsts panels] at firstControls
  rw [controls seconds panels] at secondControls
  rw [firsts.settled] at shown
  rw [seconds.settled]
  exact agree oldPanel oldPanelMember oldFirst oldFirstMember oldSecond oldSecondMember firstControls
    secondControls shown

end AccessibleMarkup
