import AccessibleMarkup.Proofs.AttributeEdges

/-! The attributes of an element in the filtered text and in the text as written. Rules see the first, and
fixes are made by the second. They are the same but for their values where every blanked character of the
tag stands inside a quoted value. -/
namespace AccessibleMarkup

open Text Markup

/-- An offset in a range that is none of its ends. -/
def ByteRange.Splits (range : ByteRange) (offset : Nat) : Prop := range.start < offset ∧ offset < range.stop

namespace Markup

/-- An attribute without its value: what it is called, how its value is written, and where it stands. -/
def Attribute.frame (attr : Attribute) : Attribute := { attr with value := "" }

theorem map_name_of_frame {attributes others : List Attribute}
    (same : attributes.map Attribute.frame = others.map Attribute.frame) :
    attributes.map (·.name) = others.map (·.name) := by
  have names (attrs : List Attribute) : attrs.map (·.name) = (attrs.map Attribute.frame).map (·.name) := by
    rw [List.map_map]
    rfl
  rw [names attributes,names others,same]

namespace AttributePhase

/-- A phase without the characters of a quoted value. -/
def frame : AttributePhase → AttributePhase
  | .quoted name mark start _ => .quoted name mark start []
  | phase => phase

theorem frame_step (phase : AttributePhase) (offset : Nat) (c : Char) :
    (phase.frame.step offset c).1.frame = (phase.step offset c).1.frame ∧
      (phase.frame.step offset c).2.map Attribute.frame = (phase.step offset c).2.map Attribute.frame := by
  cases phase with
  | quoted name mark start chars =>
    simp only [frame,step]
    split_ifs <;> exact ⟨rfl,rfl⟩
  | _ => exact ⟨rfl,rfl⟩

theorem frame_finish (phase : AttributePhase) (length : Nat) :
    (phase.frame.finish length).map Attribute.frame = (phase.finish length).map Attribute.frame := by
  cases phase <;> rfl

theorem map_frame_read (phase other : AttributePhase) (same : phase.frame = other.frame) (offset : Nat)
    (text : List Char) :
    (readAttributesFrom phase offset text).map Attribute.frame =
      (readAttributesFrom other offset text).map Attribute.frame := by
  induction text generalizing phase other offset with
  | nil =>
    have finished := phase.frame_finish offset
    rw [same,other.frame_finish] at finished
    simp only [readAttributesFrom,← Option.toList_map,finished]
  | cons c rest ih =>
    obtain ⟨next,given⟩ := phase.frame_step offset c
    obtain ⟨otherNext,otherGiven⟩ := other.frame_step offset c
    rw [same] at next given
    rw [readAttributesFrom_cons,readAttributesFrom_cons,List.map_append,List.map_append,
      ih _ _ (next.symm.trans otherNext),← Option.toList_map,← Option.toList_map,← given,← otherGiven]

/-- Whether the character leaves the reader where it is: it stands in a quoted value without ending it, or
after the tag. -/
def ignores : AttributePhase → Char → Bool
  | .quoted _ mark _ _, c => c != mark
  | .done, _ => true
  | _, _ => false

end AttributePhase

def sheltered (covered : Nat → Bool) : AttributePhase → Nat → List Char → Bool
  | _, _, [] => true
  | phase, offset, c :: rest =>
    (!covered offset || blankChar c == [c] || phase.ignores c) &&
      sheltered covered (phase.step offset c).1 (offset + c.utf8Size) rest

variable {covered : Nat → Bool}

theorem map_frame_blankWhere (phase : AttributePhase) (started : phase.Started) (offset : Nat)
    (text : List Char) (ignored : sheltered covered phase offset text = true) :
    (readAttributesFrom phase offset (blankWhere covered offset text)).map Attribute.frame =
      (readAttributesFrom phase offset text).map Attribute.frame := by
  induction text generalizing phase offset with
  | nil => rfl
  | cons c rest ih =>
    rw [sheltered,Bool.and_eq_true] at ignored
    obtain ⟨here,later⟩ := ignored
    have further := ih _ ((phase.step_turn offset c).started started) _ later
    by_cases kept : (if covered offset then blankChar c else [c]) = [c]
    · rw [blankWhere,kept,List.singleton_append,readAttributesFrom_cons,readAttributesFrom_cons,
        List.map_append,List.map_append,further]
    · have inside : covered offset = true ∧ blankChar c ≠ [c] := by
        split_ifs at kept with inside
        · exact ⟨inside,kept⟩
        · contradiction
      have spaces : blankChar c = List.replicate c.utf8Size ' ' := by
        have changed := inside.2
        unfold blankChar at changed ⊢
        split_ifs at changed ⊢
        · contradiction
        · rfl
      have ignores : phase.ignores c = true := by simpa [inside] using here
      rw [blankWhere,if_pos inside.1]
      cases phase with
      | done => rw [AttributePhase.read_done,AttributePhase.read_done]
      | quoted name mark start chars =>
        have other : c ≠ mark := by simpa [AttributePhase.ignores] using ignores
        have blank : ∀ d ∈ blankChar c, d ≠ mark := by
          intro d member
          rw [spaces] at member
          rw [List.eq_of_mem_replicate member]
          rcases started with rfl | rfl <;> decide
        rw [readAttributesFrom_append,AttributePhase.run_quoted _ _ _ _ _ _ blank,byteLength_blankChar,
          readAttributesFrom_cons]
        have stepped : AttributePhase.step (.quoted name mark start chars) offset c =
            (.quoted name mark start (c :: chars),none) := by
          simp [AttributePhase.step,other]
        rw [stepped] at further ⊢
        have alike := AttributePhase.map_frame_read (.quoted name mark start ((blankChar c).reverse ++ chars))
          (.quoted name mark start (c :: chars)) rfl
        exact (alike _ _).trans further
      | _ => contradiction

theorem byteLength_le_of_isPrefixOf {first text : List Char} (starts : first.isPrefixOf text = true) :
    byteLength first ≤ byteLength text := by
  obtain ⟨rest,rfl⟩ := List.isPrefixOf_iff_prefix.mp starts
  grind

theorem statementRangesFrom_stop (phase : StatementPhase) (offset : Nat) (text : List Char) :
    ∀ range ∈ statementRangesFrom phase offset text, range.stop ≤ offset + byteLength text := by
  induction text generalizing phase offset with
  | nil =>
    intro range member
    cases phase with
    | outside skip => simp [statementRangesFrom] at member
    | inside start skip closing =>
      obtain rfl := List.mem_singleton.mp member
      exact Nat.le_refl _
  | cons c rest ih =>
    intro range member
    have further (next : StatementPhase)
        (later : range ∈ statementRangesFrom next (offset + c.utf8Size) rest) :
        range.stop ≤ offset + byteLength (c :: rest) := by
      have bound := ih next _ range later
      grind
    rcases phase with (_ | skip) | ⟨start,_ | skip,closing⟩
    · rw [statementRangesFrom] at member
      split at member
      · exact further _ member
      · exact further _ member
    · exact further _ member
    · rw [statementRangesFrom] at member
      split_ifs at member with closes
      · rcases List.mem_cons.mp member with rfl | later
        · exact Nat.add_le_add_left (byteLength_le_of_isPrefixOf closes) offset
        · exact further _ later
      · exact further _ member
    · exact further _ member

variable {filter : Filter} {source : List Char}

theorem Filter.ranges_stop {range : ByteRange} (member : range ∈ filter.ranges source) :
    range.stop ≤ byteLength source := by
  cases filter with
  | keep => simp [Filter.ranges] at member
  | controlFlow nameSpaces =>
    rcases List.mem_append.mp member with statement | control
    · simpa using statementRangesFrom_stop (.outside 0) 0 source range statement
    · obtain ⟨tag,found,rfl⟩ := List.mem_map.mp control
      obtain ⟨front,after,stands⟩ := lex_standsIn source tag (List.mem_filter.mp found).1
      have stop : tag.range.stop = byteLength front := stands.ends.stop
      rw [stop,stands.parts,byteLength_append]
      omega

theorem Filter.not_splits_shown {front rest : List Char} {c : Char}
    (found : filter.apply source = front ++ c :: rest) (shown : isMarkupSpace c = false)
    {range : ByteRange} (member : range ∈ filter.ranges source) :
    ¬ range.Splits (byteLength front) ∧ ¬ range.Splits (byteLength front + c.utf8Size) := by
  obtain ⟨space,feed,carriage⟩ := ne_blank_of_not_markupSpace shown
  rw [filter.apply_eq] at found
  obtain ⟨before,after,parts,rfl,_,kept⟩ := blankWhere_shown 0 source front rest c found space
  rw [byteLength_blankWhere]
  rw [Nat.zero_add] at kept
  have outside : ¬ (range.start ≤ byteLength before ∧ byteLength before < range.stop) := by
    intro inside
    have covered : covers (filter.ranges source) (byteLength before) = true :=
      List.any_eq_true.mpr ⟨range,member,by simpa [ByteRange.contains] using inside⟩
    exact (kept covered).elim feed carriage
  refine ⟨fun inside => outside ⟨Nat.le_of_lt inside.1,inside.2⟩,fun inside => outside ⟨?_,?_⟩⟩
  · -- A range starts with a character, so it does not start inside this one.
    obtain ⟨left,d,right,cut,place,_⟩ := filter.ranges_start source range member
    rw [parts] at cut
    rcases Nat.lt_or_ge (byteLength before) range.start with later | earlier
    · obtain ⟨middle,rfl,follows⟩ := append_of_byteLength_le cut (by omega)
      cases middle with
      | nil =>
        rw [List.append_nil] at place
        omega
      | cons e middle =>
        obtain ⟨rfl,_⟩ := List.cons.inj follows
        have first := inside.1
        grind
    · exact earlier
  · have last := inside.2
    omega

theorem Filter.not_splits_beside {before tag after : List Char} {offset : Nat}
    (parts : filter.apply source = before ++ (tag ++ after))
    (beside : Beside (byteLength before) tag offset) {range : ByteRange}
    (member : range ∈ filter.ranges source) : ¬ range.Splits offset := by
  obtain ⟨first,c,second,rfl,shown,place⟩ := beside
  have found : filter.apply source = (before ++ first) ++ c :: (second ++ after) := by
    rw [parts]
    simp
  have spared := Filter.not_splits_shown found shown member
  rw [byteLength_append] at spared
  rcases place with rfl | rfl
  · exact spared.1
  · exact spared.2

variable {element : Element}

/-- Whether the filter blanks nothing in the tag of an element but characters inside quoted values. -/
def Filter.shelters (filter : Filter) (source : List Char) (node : Node) : Bool :=
  (slice? source node.start node.openStop).any (sheltered (covers (filter.ranges source)) .outside node.start)

theorem Element.map_frame_written (member : element ∈ elements (filter.apply source))
    (spared : filter.shelters source element.toNode = true) :
    (Fix.writtenAttributes source element.toNode).map Attribute.frame =
      element.attributes.map Attribute.frame := by
  rw [Filter.shelters,Option.any_eq_true] at spared
  obtain ⟨tag,sliced,ignored⟩ := spared
  have kept : Filter.apply Filter.keep (filter.apply source) = filter.apply source := rfl
  have found : element ∈ elements (Filter.apply Filter.keep (filter.apply source)) := by rwa [kept]
  obtain ⟨first,last⟩ := Element.boundary_tag found
  obtain ⟨shown,seen⟩ := exists_slice first last (Nat.le_of_lt (Element.openStop_le member).1)
  have blanked := filter.slice_apply sliced seen
  have read : element.attributes = readAttributes shown element.start := by
    obtain ⟨node,_,rfl⟩ := List.mem_map.mp member
    rw [Element.ofNode] at seen ⊢
    rw [seen]
  rw [Fix.writtenAttributes,sliced,read,blanked]
  exact (map_frame_blankWhere .outside trivial element.start tag ignored).symm

theorem Element.not_splits (member : element ∈ elements (filter.apply source)) {range : ByteRange}
    (blanked : range ∈ filter.ranges source) :
    ¬ range.Splits (Fix.nameStop element.toNode) ∧ ∀ attr ∈ element.attributes, ¬ range.Splits attr.range.stop := by
  have edges := fun attr own => @Element.attribute_edges _ _ member attr own
  obtain ⟨node,found,rfl⟩ := List.mem_map.mp member
  obtain ⟨before,name,inner,after,written⟩ := node.exists_writtenIn _ found
  have start := written.start
  refine ⟨?_,fun attr own => ?_⟩
  · obtain ⟨c,rest,nonempty,_⟩ := written.tag.letter
    obtain ⟨init,last,rfl⟩ := (List.eq_nil_or_concat name).resolve_left (by simp [nonempty])
    have shown : isMarkupSpace last = false :=
      isMarkupSpace_of_continues (continues_of_isNameChar (written.tag.written last (by simp)))
    have place : filter.apply source = (before ++ '<' :: init) ++ last :: (inner ++ after) := by
      rw [written.parts]
      simp
    have spared := (Filter.not_splits_shown place shown blanked).2
    have stop : Fix.nameStop node = byteLength (before ++ '<' :: init) + last.utf8Size := by
      rw [written.nameStop_eq,← start]
      simp
      grind
    rwa [← stop] at spared
  · obtain ⟨front,tag,rest,parts,_,last⟩ := edges attr own
    rcases last with beside | ended
    · exact Filter.not_splits_beside parts beside blanked
    · have opened : attr.range.stop = node.openStop := ended
      have length := written.openStop
      rcases written.tag.ended with ⟨_,_,rfl⟩ | ⟨body,_,rfl,_⟩
      · -- The end of the text cuts the tag off.
        have bound := Filter.ranges_stop blanked
        have whole := congrArg byteLength written.parts
        rw [Filter.byteLength_apply] at whole
        simp only [byteLength_append,byteLength_cons,byteLength_nil] at whole
        rintro ⟨_,later⟩
        grind
      · have place : filter.apply source = (before ++ '<' :: (name ++ body)) ++ '>' :: after := by
          rw [written.parts]
          simp
        have spared := (Filter.not_splits_shown place (by decide) blanked).2
        have stop : attr.range.stop = byteLength (before ++ '<' :: (name ++ body)) + Char.utf8Size '>' := by
          grind
        rwa [← stop] at spared

end Markup

namespace Fix

theorem plan_inside_filtered (fix : Fix) (source : List Char) (filter : Filter) (node : Node)
    (member : node ∈ outlineNodes (filter.apply source)) (anchor : Nat) (starts : node.start ≤ anchor)
    (stops : anchor < node.openStop) (valid : fix.invalidName? = none) :
    ∃ parent, fix.plan source anchor filter = fix.planOn source ⟨node,parent⟩ := by
  obtain ⟨i,found⟩ := List.mem_iff_getElem?.mp member
  have spans := (outlineNodes_forest (filter.apply source)).spans i node found
  unfold Node.Spans at spans
  rw [Filter.byteLength_apply] at spans
  obtain ⟨parent,located⟩ := FixTarget.locate?_inside _ node member anchor starts stops
  exact ⟨parent,by rw [plan,if_neg (by omega),valid,Filter.apply_toMarkupFilter,located]⟩

theorem plan_addAttribute_filtered (source : List Char) (filter : Filter) (node : Node)
    (member : node ∈ outlineNodes (filter.apply source)) (name value : String)
    (valid : isAttributeName name = true) :
    (addAttribute name value).plan source node.start filter =
      .ok (if hasAttribute (writtenAttributes source node) name then .skipped .alreadySatisfied
        else .applied (insertAttribute node (writtenAttributes source node) name value)) := by
  obtain ⟨i,found⟩ := List.mem_iff_getElem?.mp member
  have opened := ((outlineNodes_forest (filter.apply source)).spans i node found).1
  obtain ⟨parent,planned⟩ := plan_inside_filtered (addAttribute name value) source filter node member node.start
    le_rfl opened (by simp [invalidName?,valid])
  rw [planned]
  simp only [planOn]
  split_ifs <;> rfl

theorem insertAttribute_offset (node : Node) (attributes others : List Attribute) (name value : String)
    (same : attributes.map Attribute.frame = others.map Attribute.frame) :
    (insertAttribute node attributes name value).range = (insertAttribute node others name value).range := by
  have stops (attrs : List Attribute) :
      attrs.getLast?.map (·.range.stop) = (attrs.map Attribute.frame).getLast?.map (·.range.stop) := by
    rw [List.getLast?_map,Option.map_map]
    rfl
  have last : attributes.getLast?.map (·.range.stop) = others.getLast?.map (·.range.stop) := by
    rw [stops attributes,stops others,same]
  unfold insertAttribute
  cases one : attributes.getLast? <;> cases other : others.getLast? <;> simp_all [Edit.insertion]

end Fix

/-- Where every blanked character of a tag stands inside a quoted value, rules and fixes see the same
attributes: an attribute is added exactly if the element has none of the name, and never inside what is
blanked. -/
theorem attributes_shared (source : List Char) (filter : Filter) (element : Element)
    (member : element ∈ (Document.read source filter).elements)
    (spared : filter.shelters source element.toNode = true) :
    (Fix.writtenAttributes source element.toNode).map Attribute.frame =
        element.attributes.map Attribute.frame ∧
      ∀ name value, Fix.isAttributeName name = true →
        ((Fix.addAttribute name value).plan source element.start filter = .ok (.skipped .alreadySatisfied) ↔
          element.has name = true) ∧
        ∀ edit, (Fix.addAttribute name value).plan source element.start filter = .ok (.applied edit) →
          ∀ range ∈ filter.ranges source, ¬ range.Splits edit.range.start := by
  have same := Element.map_frame_written member spared
  refine ⟨same,fun name value valid => ?_⟩
  have found : element.toNode ∈ outlineNodes (filter.apply source) := by
    obtain ⟨node,outlined,rfl⟩ := List.mem_map.mp member
    exact outlined
  have planned := Fix.plan_addAttribute_filtered source filter element.toNode found name value valid
  have present : hasAttribute (Fix.writtenAttributes source element.toNode) name = element.has name :=
    hasAttribute_of_names _ _ name (map_name_of_frame same)
  rw [present] at planned
  refine ⟨?_,fun edit applied range blanked => ?_⟩
  · rw [planned]
    split_ifs with has
    · exact ⟨fun _ => has,fun _ => rfl⟩
    · exact ⟨fun skipped => by simp at skipped,fun holds => absurd holds has⟩
  · rw [planned] at applied
    split_ifs at applied
    · simp at applied
    · obtain rfl : Fix.insertAttribute element.toNode (Fix.writtenAttributes source element.toNode) name value =
          edit := by simpa using applied
      obtain ⟨named,stops⟩ := Element.not_splits member blanked
      rw [Fix.insertAttribute_offset _ _ _ name value same]
      unfold Fix.insertAttribute
      split
      next last final => exact stops last (List.mem_of_getLast? final)
      next => exact named

theorem attributes_shared_quoted :
    let source := "<p title=\"\x7b% if a > 'é' %\x7dx\" id=y>".toList
    let filter := Filter.controlFlow Filter.defaultNameSpaces
    ∃ element ∈ (Document.read source filter).elements, filter.shelters source element.toNode = true ∧
      element.has "TITLE" = true ∧
      (Fix.addAttribute "TITLE" "").plan source element.start filter = .ok (.skipped .alreadySatisfied) ∧
      (Fix.addAttribute "hidden" "").plan source element.start filter =
        .ok (.applied ⟨⟨34,34⟩," hidden".toList⟩) ∧
      ∀ range ∈ filter.ranges source, ¬ range.Splits 34 := by
  intro source filter
  have found : ∃ element ∈ (Document.read source filter).elements,
      filter.shelters source element.toNode = true ∧ element.has "TITLE" = true ∧
      (Fix.addAttribute "hidden" "").plan source element.start filter =
        .ok (.applied ⟨⟨34,34⟩," hidden".toList⟩) := by decide +kernel
  obtain ⟨element,member,spared,has,applied⟩ := found
  have shared := (attributes_shared source filter element member spared).2
  exact ⟨element,member,spared,has,(shared "TITLE" "" (by decide +kernel)).1.mpr has,applied,
    (shared "hidden" "" (by decide +kernel)).2 _ applied⟩

end AccessibleMarkup
