import AccessibleMarkup.Proofs.FixMeasure

/-! Every fix of an attribute makes progress: either the attribute becomes right once and for all, or
the place in the order of focus or the visibility of a panel goes with the states as they are. No fix
changes what a state comes to, so that states which agree keep on agreeing. -/
namespace AccessibleMarkup

open Text Markup

/-- The second element is the better one of the two between some others. -/
structure Improves (left right : List Element) (first second : Element) : Prop where
  ties : first.SameTies second
  less : second.burden < first.burden ∨
    (second.burden = first.burden ∧
      disorder (left ++ second :: right) < disorder (left ++ first :: right))

namespace Markup.PlainTag.Updates

variable {tag changed : PlainTag} {key : String} {value : Option String}

theorem sameTies (updates : tag.Updates changed key value) (mended : key ∈ mendedNames)
    (settled : changed.alone.settledState? = tag.alone.settledState?) : tag.alone.SameTies changed.alone :=
  ⟨updates.fixed mended _ (by decide),updates.fixed mended _ (by decide),settled⟩

theorem settledState?_of_other (updates : tag.Updates changed key value) (mended : key ∈ mendedNames)
    (selected : key ≠ "aria-selected") (expanded : key ≠ "aria-expanded") :
    changed.alone.settledState? = tag.alone.settledState? :=
  updates.settledState? mended (fun same => absurd same selected) fun same => absurd same expanded

theorem sameControl (updates : tag.Updates changed key value) (mended : key ∈ mendedNames)
    (selected : key ≠ "aria-selected") (expanded : key ≠ "aria-expanded") :
    tag.alone.SameControl changed.alone :=
  ⟨updates.fixed mended _ (by decide),updates.fixed mended _ (by decide),
    updates.state? mended selected expanded⟩

theorem improves_of_weight (updates : tag.Updates changed key value) (settles : key ∈ settledNames)
    (lighter : weight key value < weight key (tag.alone.value? key))
    (settled : changed.alone.settledState? = tag.alone.settledState?) (left right : List Element) :
    Improves left right tag.alone changed.alone :=
  ⟨updates.sameTies (List.mem_append_right _ settles) settled,Or.inl (updates.burden_lt settles lighter)⟩

theorem improves_of_gap (updates : tag.Updates changed key value) (follows : key = "tabindex" ∨ key = "hidden")
    (left right : List Element)
    (less : changed.alone.focusGap + changed.alone.panelGap (left ++ changed.alone :: right) <
      tag.alone.focusGap + tag.alone.panelGap (left ++ tag.alone :: right)) :
    Improves left right tag.alone changed.alone := by
  have mended : key ∈ mendedNames := by rcases follows with rfl | rfl <;> decide
  have selected : key ≠ "aria-selected" := by rcases follows with rfl | rfl <;> decide
  have expanded : key ≠ "aria-expanded" := by rcases follows with rfl | rfl <;> decide
  have other : key ∉ settledNames := by rcases follows with rfl | rfl <;> decide
  refine ⟨updates.sameTies mended (updates.settledState?_of_other mended selected expanded),
    Or.inr ⟨updates.burden_eq mended other,?_⟩⟩
  exact disorder_lt left right _ _ (updates.sameControl mended selected expanded) less

end Markup.PlainTag.Updates

namespace Markup.PlainTag

variable {tag changed : PlainTag}

theorem panelGap_of_tabindex {value : String} (updates : tag.Updates changed "tabindex" (some value))
    (left right : List Element) :
    changed.alone.panelGap (left ++ changed.alone :: right) =
      tag.alone.panelGap (left ++ tag.alone :: right) := by
  have control := updates.sameControl (by decide) (by decide) (by decide)
  have hidden : changed.alone.has "hidden" = tag.alone.has "hidden" := by
    rw [Element.has_eq,Element.has_eq,updates.kept _ (by decide)]
  rw [Element.panelGap,Element.panelGap,hidden,
    Element.isClaimed_congr left right tag.alone changed.alone tag.alone changed.alone control control.id]

theorem improves_focus (updates : tag.Updates changed "tabindex" (some "0"))
    (selected : isTrue (tag.alone.value? "aria-selected") = true)
    (off : tag.alone.focusIndex? ≠ some 0) (left right : List Element) :
    Improves left right tag.alone changed.alone := by
  refine updates.improves_of_gap (Or.inl rfl) left right ?_
  have still : isTrue (changed.alone.value? "aria-selected") = true := by
    rw [updates.kept _ (by decide),selected]
  have index : changed.alone.focusIndex? = some 0 := by
    have number : readInteger? (trim "0") = some 0 := by decide
    rw [Element.focusIndex?,Element.tabIndex?,updates.given _ (sameIgnoringCase_refl _),Option.bind_some,
      number]
  rw [panelGap_of_tabindex updates,Element.focusGap,Element.focusGap,if_pos still,if_pos index,
    if_pos selected,if_neg off]
  omega

theorem improves_unfocus (updates : tag.Updates changed "tabindex" (some "-1"))
    (other : isTrue (tag.alone.value? "aria-selected") = false)
    (on : tag.alone.inFocusOrder = true) (left right : List Element) :
    Improves left right tag.alone changed.alone := by
  refine updates.improves_of_gap (Or.inl rfl) left right ?_
  have still : isTrue (changed.alone.value? "aria-selected") = false := by
    rw [updates.kept _ (by decide),other]
  have out : changed.alone.inFocusOrder = false := by
    have number : readInteger? (trim "-1") = some (-1) := by decide
    rw [Element.inFocusOrder,Element.focusIndex?,Element.tabIndex?,
      updates.given _ (sameIgnoringCase_refl _),Option.bind_some,number]
    rfl
  rw [panelGap_of_tabindex updates,Element.focusGap,Element.focusGap,still,other,out,on]
  simp

end Markup.PlainTag

theorem Agree.not_claimed {elements : List Element} (agree : Agree elements) (panel : Element)
    (member : panel ∈ elements) (active : Bool) (claimed : panel.isClaimed elements active = true) :
    panel.isClaimed elements (!active) = false := by
  have never (shown : panel.isClaimed elements true = true) (hidden : panel.isClaimed elements false = true) :
      False := by
    simp only [Element.isClaimed,List.any_eq_true,Bool.and_eq_true,Option.any_eq_true,beq_iff_eq] at shown hidden
    obtain ⟨first,firstMember,firstControls,⟨firstName,firstActive⟩,firstState,rfl⟩ := shown
    obtain ⟨second,secondMember,secondControls,⟨secondName,secondActive⟩,secondState,rfl⟩ := hidden
    exact agree panel member first firstMember second secondMember firstControls secondControls
      (settledState?_of_state first _ _ firstState) (settledState?_of_state second _ _ secondState)
  rw [Bool.eq_false_iff]
  intro other
  cases active with
  | true => exact never claimed other
  | false => exact never other claimed

namespace Markup.PlainTag

variable {tag changed : PlainTag}

theorem improves_visibility {value : Option String} (updates : tag.Updates changed "hidden" value)
    (left right : List Element) (agree : Agree (left ++ tag.alone :: right)) (active : Bool)
    (claimed : tag.alone.isClaimed (left ++ tag.alone :: right) active = true)
    (before : tag.alone.has "hidden" = active) (after : value.isSome = !active) :
    Improves left right tag.alone changed.alone := by
  refine updates.improves_of_gap (Or.inr rfl) left right ?_
  have focus : changed.alone.focusGap = tag.alone.focusGap := by
    rw [Element.focusGap,Element.focusGap,Element.inFocusOrder,Element.inFocusOrder,
      updates.focusIndex? (by decide) (by decide),updates.kept _ (by decide)]
  have control := updates.sameControl (by decide) (by decide) (by decide)
  have hidden : changed.alone.has "hidden" = !active := by
    rw [Element.has_eq,updates.given _ (sameIgnoringCase_refl _),after]
  have settled := agree.not_claimed tag.alone (List.mem_append_right _ List.mem_cons_self) active claimed
  rw [focus,Element.panelGap,Element.panelGap,hidden,before,claimed,if_pos rfl,
    Element.isClaimed_congr left right tag.alone changed.alone tag.alone changed.alone control control.id,
    settled,if_neg Bool.false_ne_true]
  omega

theorem improves_unmark {name : String} (updates : tag.Updates changed name none)
    (marker : name ∈ markerNames) (present : tag.alone.has name = true) (left right : List Element) :
    Improves left right tag.alone changed.alone := by
  have settles : ∀ name ∈ markerNames, name ∈ settledNames := by decide
  have selected : ∀ name ∈ markerNames, name ≠ "aria-selected" := by decide
  have expanded : ∀ name ∈ markerNames, name ≠ "aria-expanded" := by decide
  have removed : ∀ name ∈ markerNames, weight name none = 0 := by decide
  refine updates.improves_of_weight (settles name marker) ?_
    (updates.settledState?_of_other (List.mem_append_right _ (settles name marker)) (selected name marker)
      (expanded name marker)) left right
  rw [Element.has_eq] at present
  rw [removed name marker,weight,present,Bool.and_true,if_pos (List.elem_iff.mpr marker)]
  omega

theorem improves_correct {name meant : String} (updates : tag.Updates changed name (some meant))
    (judged : name ∈ judgedNames) (value : String) (written : tag.alone.value? name = some value)
    (correction : Rules.AriaAttributeValue.correction? (trim value) = some meant)
    (proper : isCorrectable meant = false) (left right : List Element) :
    Improves left right tag.alone changed.alone := by
  have same := truth?_of_correction value meant correction
  have wrong : isCorrectable value = true := by rw [isCorrectable,correction]; rfl
  refine updates.improves_of_weight (List.mem_append_left _ judged) ?_ ?_ left right
  · rw [written,weight,weight,Option.any_some,Option.any_some,proper,wrong,Bool.and_true,Bool.and_false,
      if_neg Bool.false_ne_true,if_pos (List.elem_iff.mpr judged)]
    exact Nat.lt_succ_self _
  · refine updates.settledState? (List.mem_append_right _ (List.mem_append_left _ judged)) ?_ ?_
    · intro _
      rw [written]
      exact same
    · intro _
      rw [written]
      exact same

theorem improves_complete (requirement : Rules.RequiredState.Requirement) {value : String}
    (updates : tag.Updates changed requirement.name (some value))
    (member : requirement ∈ Rules.RequiredState.requirements)
    (written : tag.alone.writesRole requirement.role = true)
    (absent : tag.alone.has requirement.name = false)
    (start : requirement.name = "aria-valuenow" ∨ value = requirement.value) (left right : List Element) :
    Improves left right tag.alone changed.alone := by
  have settles : ∀ one ∈ Rules.RequiredState.requirements, one.name ∈ settledNames := by decide
  have missing : ∀ one ∈ Rules.RequiredState.requirements, weight one.name none = 1 := by decide
  have given : ∀ one ∈ Rules.RequiredState.requirements, weight one.name (some one.value) = 0 := by
    decide
  have states : ∀ one ∈ Rules.RequiredState.requirements,
      (one.name = "aria-selected" → one.value = "false") ∧
        (one.name = "aria-expanded" → one.value = "false" ∧ one.role = "combobox") := by
    decide
  have nothing : tag.alone.value? requirement.name = none := by
    rw [Element.has_eq] at absent
    simpa using absent
  refine updates.improves_of_weight (settles requirement member) ?_ ?_ left right
  · rw [nothing,missing requirement member]
    rcases start with named | rfl
    · have marker : markerNames.contains "aria-valuenow" = false := by decide
      have judged : judgedNames.contains "aria-valuenow" = false := by decide
      rw [named,weight,marker,judged]
      simp
    · rw [given requirement member]
      exact Nat.zero_lt_one
  · refine updates.settledState? (List.mem_append_right _ (settles requirement member)) ?_ ?_
    · intro same
      rcases start with named | rfl
      · exact absurd (same.symm.trans named) (by decide)
      · rw [nothing,(states requirement member).1 same]
        exact truth?_words.2
    · intro same
      obtain ⟨first,role⟩ := (states requirement member).2 same
      rw [role] at written
      rcases start with named | rfl
      · exact absurd (same.symm.trans named) (by decide)
      · rw [nothing,first,Element.expandedStart?,written,if_pos rfl]
        exact truth?_words.2

end Markup.PlainTag

theorem correction_written (value meant : String)
    (correction : Rules.AriaAttributeValue.correction? value = some meant) :
    isPlainText meant = true ∧ String.ofList (escaped meant) = meant ∧ isCorrectable meant = false := by
  have facts : ∀ word ∈ ["true","false"], isPlainText word = true ∧
      String.ofList (escaped word) = word ∧ isCorrectable word = false := by
    decide
  exact facts meant (Rules.AriaAttributeValue.correction_words correction)

theorem mem_trim (text : String) (c : Char) (member : c ∈ (trim text).toList) : c ∈ text.toList := by
  rw [trim,String.toList_ofList,trimEnd,List.mem_reverse] at member
  have inner := (List.dropWhile_sublist _).subset member
  rw [List.mem_reverse] at inner
  exact (List.dropWhile_sublist _).subset inner

theorem startValue_plain (tag : PlainTag) (element : Element) (alike : element.Alike tag.alone)
    (requirement : Rules.RequiredState.Requirement)
    (member : requirement ∈ Rules.RequiredState.requirements) :
    isPlainText (Rules.RequiredState.startValue element requirement) = true := by
  have literal : ∀ one ∈ Rules.RequiredState.requirements, isPlainText one.value = true := by
    decide
  unfold Rules.RequiredState.startValue
  split
  · split
    next least found =>
      have known := (Option.filter_eq_some_iff.mp found).1
      rw [alike.value,tag.alone_value,PlainTag.value?] at known
      obtain ⟨attr,_,rfl⟩ := Option.map_eq_some_iff.mp known
      rw [isPlainText,List.all_eq_true]
      intro c inside
      exact attr.value.text_plain c (mem_trim _ c inside)
    next => exact literal requirement member
  · exact literal requirement member

end AccessibleMarkup
