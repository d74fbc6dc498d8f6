import AccessibleMarkup.Proofs.FixDemands
import AccessibleMarkup.Proofs.FixLocality
import AccessibleMarkup.Proofs.ReportedViolations

/-! What templates make and the rules judge all the same. The rules see the filtered text, so a template
expression escapes them only if the filter leaves its marker in place. The main result is
`templated_values_not_judged`. -/
namespace AccessibleMarkup

open Text Markup

theorem Text.occurs_iff (needle text : List Char) : occurs needle text = true ↔ needle <:+: text := by
  induction text with
  | nil => cases needle <;> simp [occurs,breakOn?]
  | cons c rest ih =>
    rw [List.infix_cons_iff,← ih,← List.isPrefixOf_iff_prefix,occurs,occurs,breakOn?]
    cases needle.isPrefixOf (c :: rest) <;> simp

namespace Markup

theorem isTemplated_iff (text : List Char) :
    isTemplated text = true ↔ ∃ marker ∈ templateMarkers, marker <:+: text := by
  simp only [isTemplated,List.any_eq_true,occurs_iff]

/-- A template expression opens in some characters, which stand at an offset, and none of the ranges
touches its marker. -/
def ShowsTemplate (ranges : List ByteRange) (offset : Nat) (written : List Char) : Prop :=
  ∃ marker ∈ templateMarkers, ∃ front back, written = front ++ (marker ++ back) ∧
    ∀ place, offset + byteLength front ≤ place → place < offset + byteLength front + byteLength marker →
      covers ranges place = false

theorem blankWhere_uncovered {covered : Nat → Bool} (offset : Nat) (chars : List Char)
    (bare : ∀ place, offset ≤ place → place < offset + byteLength chars → covered place = false) :
    blankWhere covered offset chars = chars := by
  induction chars generalizing offset with
  | nil => rfl
  | cons c rest ih =>
    have size := Char.utf8Size_pos c
    rw [byteLength_cons] at bare
    rw [blankWhere,bare offset (Nat.le_refl _) (by omega),ih _ fun place later before =>
      bare place (by omega) (by omega)]
    rfl

theorem Filter.slice_apply (filter : Filter) {source written shown : List Char} {start stop : Nat}
    (before : slice? source start stop = some written)
    (after : slice? (filter.apply source) start stop = some shown) :
    shown = blankWhere (covers (filter.ranges source)) start written := by
  obtain ⟨front,back,parts,first,last⟩ := slice?_some _ _ _ _ before
  obtain ⟨left,right,cut,place,stopped⟩ := slice?_some _ _ _ _ after
  rw [filter.apply_eq] at cut
  generalize covers (filter.ranges source) = covered at cut ⊢
  rw [parts,blankWhere_append,blankWhere_append,Nat.zero_add,first] at cut
  obtain ⟨_,tail⟩ := append_inj_of_byteLength cut (by rw [byteLength_blankWhere,first,place])
  exact (append_inj_of_byteLength tail (by rw [byteLength_blankWhere]; omega)).1.symm

theorem Filter.isTemplated_of_shows (filter : Filter) {source written shown : List Char} {start stop : Nat}
    (before : slice? source start stop = some written)
    (after : slice? (filter.apply source) start stop = some shown)
    (shows_ : ShowsTemplate (filter.ranges source) start written) : isTemplated shown = true := by
  obtain ⟨marker,listed,front,back,rfl,bare⟩ := shows_
  have same := filter.slice_apply before after
  rw [blankWhere_append,blankWhere_append,blankWhere_uncovered _ marker bare] at same
  rw [isTemplated_iff]
  exact ⟨marker,listed,_,_,by rw [same,List.append_assoc]⟩

theorem ShowsTemplate.nonempty {ranges : List ByteRange} {offset : Nat} {written : List Char}
    (shows_ : ShowsTemplate ranges offset written) : 0 < byteLength written := by
  obtain ⟨marker,listed,front,back,rfl,_⟩ := shows_
  have sizes : ∀ marker ∈ templateMarkers, byteLength marker = 2 := by decide
  grind

variable {text : List Char} {element : Element} {attr : Attribute}

/-- The places of an attribute and of its value in the text of its element. -/
theorem Element.attribute_place (member : element ∈ elements text) (own : attr ∈ element.attributes) :
    element.start ≤ attr.range.start ∧ attr.range.start ≤ attr.range.stop ∧
      attr.range.stop ≤ element.openStop ∧
      ∀ range, attr.valueRange = some range → attr.range.start ≤ range.start ∧ range.stop ≤ attr.range.stop ∧
        slice? text range.start range.stop = some attr.value.toList := by
  obtain ⟨node,found,rfl⟩ := List.mem_map.mp member
  have kept : Filter.apply Filter.keep text = text := rfl
  rw [← kept] at found
  obtain ⟨before,name,inner,body,after,written⟩ := Filter.exists_partsIn found
  obtain ⟨⟨chars,front,back,parts,start,stop⟩,value⟩ := written.attribute_standsIn attr own
  have place := written.nameStop_eq
  have opened := written.openStop
  have sizes := congrArg byteLength parts
  simp only [byteLength_append] at sizes
  have first : node.start ≤ attr.range.start := by omega
  have last : attr.range.stop ≤ node.openStop := by omega
  refine ⟨first,by omega,last,fun range given => ?_⟩
  obtain ⟨⟨left,right,cut,begins,ends⟩,earlier,later⟩ := value range given
  refine ⟨earlier,later,?_⟩
  have sliced := slice?_append (before ++ '<' :: (name ++ left)) attr.value.toList (right ++ (body ++ after))
  have size : byteLength (before ++ '<' :: (name ++ left)) = range.start := by
    simp only [byteLength_append,byteLength_cons,written.start]
    grind
  rw [size,← ends] at sliced
  rw [← sliced,written.parts,cut]
  simp

theorem Element.openStop_le (member : element ∈ elements text) :
    element.start < element.openStop ∧ element.openStop ≤ byteLength text := by
  obtain ⟨node,found,rfl⟩ := List.mem_map.mp member
  obtain ⟨i,place⟩ := List.mem_iff_getElem?.mp found
  obtain ⟨first,second,third,last⟩ := (outlineNodes_forest text).spans i node place
  exact ⟨first,Nat.le_trans second (Nat.le_trans third last)⟩

theorem exists_slice {start stop : Nat} (first : Boundary text start) (last : Boundary text stop)
    (ordered : start ≤ stop) : ∃ found, slice? text start stop = some found := by
  obtain ⟨front,rest,rfl,place⟩ := first
  obtain ⟨whole,back,same,size⟩ := last
  obtain ⟨middle,rfl,rfl⟩ := append_of_byteLength_le same (by omega)
  have sliced := slice?_append front middle back
  rw [byteLength_append] at size
  rw [size,place] at sliced
  exact ⟨middle,sliced⟩

theorem Element.contentRange_eq {node : Node} (found : node ∈ outlineNodes text) :
    (Element.ofNode text node).contentRange = ⟨node.openStop,node.closeStart⟩ := by
  obtain ⟨i,place⟩ := List.mem_iff_getElem?.mp found
  obtain ⟨_,ordered,_⟩ := (outlineNodes_forest text).spans i node place
  simp only [contentRange,ofNode,Nat.min_eq_left ordered]

theorem Element.exists_content (member : element ∈ elements text) :
    ∃ content, element.content? text = some content := by
  obtain ⟨node,found,rfl⟩ := List.mem_map.mp member
  obtain ⟨i,place⟩ := List.mem_iff_getElem?.mp found
  obtain ⟨_,ordered,_⟩ := (outlineNodes_forest text).spans i node place
  have kept : Filter.apply Filter.keep text = text := rfl
  have ends := outlineNodes_endsBy text node found
  have range := Element.contentRange_eq found
  rw [← kept] at found
  obtain ⟨opened,stopped⟩ := Filter.boundary_node found
  have closed : Boundary text node.closeStart := by
    cases ends with
    | closing tag lexed _ _ closeStart =>
      rw [closeStart]
      exact (Filter.boundary_tag Filter.keep text tag lexed).1
    | before _ _ _ closeStart => rwa [closeStart]
    | opening _ closeStart => rwa [closeStart]
    | atEnd _ closeStart => rwa [closeStart]
  rw [Element.content?,range]
  exact exists_slice opened closed ordered

theorem Element.attributes_inOrder (member : element ∈ elements text) :
    element.attributes.Pairwise fun first second => first.range.stop ≤ second.range.start := by
  obtain ⟨node,found,rfl⟩ := List.mem_map.mp member
  have kept : Filter.apply Filter.keep text = text := rfl
  rw [← kept] at found
  obtain ⟨before,name,inner,body,after,written⟩ := Filter.exists_partsIn found
  have read : (Element.ofNode text node).attributes = readAttributesFrom .tagName (Fix.nameStop node) inner :=
    written.writtenAttributes_eq
  rw [read]
  exact (readAttributesFrom_inOrder (Fix.nameStop node) .tagName [] inner trivial trivial).2

theorem Element.eq_or_apart {other : Element} (member : element ∈ elements text)
    (there : other ∈ elements text) :
    element = other ∨ element.openStop ≤ other.start ∨ other.openStop ≤ element.start := by
  obtain ⟨i,found⟩ := List.mem_iff_getElem?.mp member
  obtain ⟨j,place⟩ := List.mem_iff_getElem?.mp there
  have forest := outlineNodes_forest text
  have node (k : Nat) (one : Element) (here : (elements text)[k]? = some one) :
      (outlineNodes text)[k]? = some one.toNode := by
    rw [elements,List.getElem?_map] at here
    obtain ⟨node,present,rfl⟩ := Option.map_eq_some_iff.mp here
    exact present
  rcases Nat.lt_trichotomy i j with less | rfl | more
  · exact Or.inr (Or.inl (forest.openStop_le i j _ _ (node i _ found) (node j _ place) less))
  · exact Or.inl (Option.some.inj (found.symm.trans place))
  · exact Or.inr (Or.inr (forest.openStop_le j i _ _ (node j _ place) (node i _ found) more))

theorem Element.eq_of_covered {other : Element} {covered : Attribute} {range : ByteRange}
    (member : element ∈ elements text) (own : attr ∈ element.attributes) (there : other ∈ elements text)
    (held : covered ∈ other.attributes) (given : covered.valueRange = some range)
    (nonempty : range.start < range.stop) (first : attr.range.start ≤ range.start)
    (last : range.stop ≤ attr.range.stop) : other = element ∧ covered = attr := by
  obtain ⟨start,_,stop,_⟩ := Element.attribute_place member own
  obtain ⟨otherStart,_,otherStop,value⟩ := Element.attribute_place there held
  obtain ⟨after,before,_⟩ := value range given
  obtain rfl : other = element := by
    rcases Element.eq_or_apart there member with same | earlier | later
    · exact same
    · omega
    · omega
  refine ⟨rfl,?_⟩
  rcases eq_or_before_of_pairwise (Element.attributes_inOrder there) held own with same | earlier | later
  · exact same
  · omega
  · omega

end Markup

/-- The attribute that a violation is reported at, in the element that has it. -/
structure Document.Marks (doc : Document) (violation : Violation) (element : Element) (attr : Attribute) :
    Prop where
  present : element ∈ doc.elements
  own : attr ∈ element.attributes
  place : violation.location = doc.location attr.range.start attr.range.stop

theorem Document.marks_attribute (doc : Document) (i : Nat) (name : String) (element : Element)
    (attr : Attribute) (found : doc.elements[i]? = some element) (first : element.attribute? name = some attr)
    (violation : Violation) (place : violation.location = doc.attributeLocation i name) :
    doc.Marks violation element attr := by
  refine ⟨List.mem_of_getElem? found,List.mem_of_find?_eq_some first,?_⟩
  rw [place,Document.attributeLocation,found,Option.bind_some,first]

namespace Rules

variable (head : RuleHead) (doc : Document)

/-- A broken reference is reported at the attribute that holds it, which no template makes. -/
theorem AriaReference.marks (linked : doc.Linked)
    (kinds : List ReferenceKind) :
    ∀ violation ∈ checkKinds kinds head doc,
      ∃ element attr, doc.Marks violation element attr ∧ isDynamic attr.value = false := by
  intro violation member
  obtain ⟨reference,known,rfl⟩ := List.mem_map.mp member
  obtain ⟨listed,broken⟩ := List.mem_filter.mp known
  obtain ⟨kind,_,ofKind⟩ := List.mem_flatMap.mp listed
  have static : reference.dynamic = false := by
    simp only [isBroken,Bool.and_eq_true,Bool.not_eq_true'] at broken
    exact broken.1
  obtain ⟨inside,_⟩ := List.mem_filter.mp ofKind
  obtain ⟨element,found,refers⟩ := linked.index.reference reference inside
  obtain ⟨held,_,refers⟩ := List.mem_flatMap.mp refers
  split at refers
  next value given =>
    obtain ⟨target,_,same⟩ := List.mem_map.mp refers
    obtain ⟨attr,first,rfl⟩ := Option.map_eq_some_iff.mp given
    refine ⟨element,attr,doc.marks_attribute _ _ element attr found first _ ?_,?_⟩
    · rw [← same]
      rfl
    · rw [← same] at static
      exact static
  next => contradiction

/-- A duplicate is reported at its identifier, which no template makes. -/
theorem DuplicateId.marks (linked : doc.Linked) :
    ∀ violation ∈ check head doc,
      ∃ element attr, doc.Marks violation element attr ∧ isDynamic attr.value = false := by
  intro violation member
  obtain ⟨⟨id,i⟩,known,judged⟩ := List.mem_filterMap.mp member
  obtain ⟨listed,static⟩ := List.mem_filter.mp known
  obtain ⟨first,_,rfl⟩ := Option.map_eq_some_iff.mp judged
  obtain ⟨element,found,identified⟩ := linked.index.duplicate id i listed
  obtain ⟨given,_⟩ := Option.filter_eq_some_iff.mp identified
  obtain ⟨attr,first,rfl⟩ := Option.map_eq_some_iff.mp given
  exact ⟨element,attr,doc.marks_attribute i "id" element attr found first _ rfl,by simpa using static⟩

/-- An illegal value, which no template makes, is reported at the first attribute of its name. -/
theorem AriaAttributeValue.marks :
    ∀ violation ∈ check head doc, ∃ element attr, doc.Marks violation element attr ∧
      ∃ judged ∈ element.attributes, judged.hasName attr.name = true ∧ isDynamic judged.value = false ∧
        (judged = attr ∨ ∃ before after, element.attributes = before ++ attr :: after ∧ judged ∈ after) := by
  intro violation member
  obtain ⟨⟨element,i⟩,indexed,judges⟩ := List.mem_flatMap.mp member
  obtain ⟨judged,own,found⟩ := List.mem_filterMap.mp judges
  obtain ⟨legal,violated,made⟩ := Option.bind_eq_some_iff.mp found
  have static : isDynamic judged.value = false := by
    unfold violated? at violated
    dsimp only at violated
    split_ifs at violated with dynamic
    · simpa using dynamic
  have named : judged.hasName judged.name = true := by rw [Attribute.hasName,sameIgnoringCase,beq_self_eq_true]
  have present : (element.attribute? judged.name).isSome = true := by
    rw [Element.attribute?,findAttribute?,List.find?_isSome]
    exact ⟨judged,own,named⟩
  obtain ⟨attr,first⟩ := Option.isSome_iff_exists.mp present
  have place : doc.Marks violation element attr := by
    refine doc.marks_attribute i judged.name element attr (doc.mem_indexed element i indexed) first _ ?_
    rw [← Option.some.inj made]
    rfl
  obtain ⟨same,before,after,parts,others⟩ := List.find?_eq_some_iff_append.mp first
  refine ⟨element,attr,place,judged,own,?_,static,?_⟩
  · rw [Attribute.hasName,sameIgnoringCase,beq_iff_eq] at same ⊢
    exact same.symm
  · rw [parts] at own
    rcases List.mem_append.mp own with earlier | later
    · have other := others judged earlier
      simp [named] at other
    · rcases List.mem_cons.mp later with rfl | further
      · exact Or.inl rfl
      · exact Or.inr ⟨before,after,parts,further⟩

/-- A container without items is reported at its tag, and no template makes its content. -/
theorem RequiredChildren.marks :
    ∀ violation ∈ check head doc, ∃ element ∈ doc.elements,
      violation.location = doc.location element.start element.openStop ∧
        isTemplated ((element.content? doc.text).getD []) = false := by
  intro violation member
  obtain ⟨⟨element,i⟩,indexed,judged⟩ := List.mem_filterMap.mp member
  obtain ⟨⟨role,items⟩,_,judged⟩ := Option.bind_eq_some_iff.mp judged
  dsimp only at judged
  split_ifs at judged with unsettled
  have settled : isSettled doc i element = true := by
    simp only [Bool.or_eq_true,not_or,Bool.not_eq_true',Bool.not_eq_false] at unsettled
    exact unsettled.1
  have found := doc.mem_indexed element i indexed
  refine ⟨element,List.mem_of_getElem? found,?_,?_⟩
  · rw [← Option.some.inj judged]
    simp only [report,RuleHead.violation,Document.openTagLocation,found]
  · simp only [isSettled,Bool.and_eq_true,Bool.not_eq_true'] at settled
    exact settled.2

theorem marks_of_catalogue (settings : Settings) (rule : Rule) (listed : rule ∈ catalogue settings)
    (block : RuleBlock) (linked : doc.Linked) (violation : Violation)
    (found : violation ∈ (rule.check block doc).getD []) :
    (rule.code = "AR003" ∨ rule.code = "AR004" →
      ∃ element attr, doc.Marks violation element attr ∧ isDynamic attr.value = false) ∧
    (rule.code = "AR008" → ∃ element attr, doc.Marks violation element attr ∧
      ∃ judged ∈ element.attributes, judged.hasName attr.name = true ∧ isDynamic judged.value = false ∧
        (judged = attr ∨ ∃ before after, element.attributes = before ++ attr :: after ∧ judged ∈ after)) ∧
    (rule.code = "AR006" → ∃ element ∈ doc.elements,
      violation.location = doc.location element.start element.openStop ∧
        isTemplated ((element.content? doc.text).getD []) = false) := by
  simp only [catalogue,List.mem_cons,List.not_mem_nil,or_false] at listed
  rcases listed with rfl | rfl | rfl | rfl | rfl | rfl | rfl | rfl | rfl | rfl | rfl | rfl | rfl | rfl | rfl | rfl
  all_goals refine ⟨fun code => ?_,fun code => ?_,fun code => ?_⟩
  all_goals first
    | exact absurd code (of_decide_eq_false rfl)
    | exact AriaReference.marks _ doc linked _ violation found
    | exact DuplicateId.marks _ doc linked violation (Checked.mem_of_answer (DuplicateId.run_eq linked _) found)
    | exact AriaAttributeValue.marks _ doc violation found
    | exact RequiredChildren.marks _ doc violation (Checked.mem_of_answer (RequiredChildren.run_eq linked _) found)

end Rules

/-- The range of a violation covers the value of an attribute in which a template expression opens whose
marker none of the ranges touches. -/
def Violation.CoversTemplate (violation : Violation) (source : List Char) (ranges : List ByteRange)
    (attr : Attribute) : Prop :=
  ∃ range written, attr.valueRange = some range ∧ violation.range.start ≤ range.start ∧
    range.stop ≤ violation.range.stop ∧ slice? source range.start range.stop = some written ∧
    ShowsTemplate ranges range.start written

section Read

variable {source : List Char} {filter : Filter} {violation found : Violation} {element : Element}
  {attr : Attribute}

/-- A template that the range of a violation covers makes the attribute that the violation is reported
at. -/
theorem Document.Marks.dynamic (marks : (Document.read source filter).Marks found element attr)
    (place : violation.location =
      (Report.clampTo (Document.read source filter).length found).location)
    (other : Element) (there : other ∈ Markup.elements (filter.apply source)) (covered : Attribute)
    (held : covered ∈ other.attributes)
    (covers : violation.CoversTemplate source (filter.ranges source) covered) :
    other = element ∧ covered = attr ∧ isDynamic attr.value = true := by
  obtain ⟨range,written,given,first,last,sliced,shows_⟩ := covers
  have present : element ∈ Markup.elements (filter.apply source) := marks.present
  obtain ⟨_,ordered,stops,_⟩ := Element.attribute_place present marks.own
  have inside : element.openStop ≤ (Document.read source filter).length :=
    (Element.openStop_le present).2.trans_eq (filter.byteLength_apply source)
  have whole := Document.location_range _ _ _ ordered (by omega) found violation marks.place place
  rw [whole] at first last
  obtain ⟨_,_,_,stop⟩ := slice?_some _ _ _ _ sliced
  have size := shows_.nonempty
  obtain ⟨rfl,rfl⟩ := Element.eq_of_covered present marks.own there held given (by omega) first last
  obtain ⟨_,_,_,value⟩ := Element.attribute_place there held
  exact ⟨rfl,rfl,filter.isTemplated_of_shows sliced (value range given).2.2 shows_⟩

end Read

/-- A value or a content that a template makes is not judged, as long as the filter leaves the marker of
the template in place. Only an illegal value is reported at an earlier attribute of the same name, whatever
makes that one. -/
theorem templated_values_not_judged (analyzer : Analyzer)
    (builtIn : ∀ rule ∈ analyzer.registry.rules, ∃ settings, rule ∈ Rules.catalogue settings)
    (filter : Filter) (filtered : analyzer.filter = filter) (source : List Char) (violation : Violation)
    (reported : violation ∈ (analyzer.analyze source).violations) :
    let found := elements (filter.apply source)
    let ranges := filter.ranges source
    (violation.code = "AR003" ∨ violation.code = "AR004" →
      ∀ element ∈ found, ∀ attr ∈ element.attributes, ¬ violation.CoversTemplate source ranges attr) ∧
    (violation.code = "AR008" →
      ∀ element ∈ found, ∀ attr ∈ element.attributes, violation.CoversTemplate source ranges attr →
        ∃ later ∈ element.attributes, later.hasName attr.name = true ∧
          attr.range.stop ≤ later.range.start ∧ isDynamic later.value = false) ∧
    (violation.code = "AR006" →
      ∀ container ∈ found, violation.range = ⟨container.start,container.openStop⟩ →
        ∀ written, slice? source container.contentRange.start container.contentRange.stop = some written →
          ¬ ShowsTemplate ranges container.contentRange.start written) := by
  intro found ranges
  have signs : ∀ rule ∈ analyzer.registry.rules, rule.Signs := by
    intro rule listed
    obtain ⟨settings,member⟩ := builtIn rule listed
    exact Rules.signs_of_catalogue settings rule member
  have linked := Document.read_linked source filter
  rw [Analyzer.analyze,filtered] at reported
  obtain ⟨rule,listed,block,original,known,code,place⟩ := analyzer.mem_evaluate
    (Document.read source filter) linked signs violation reported
  obtain ⟨settings,member⟩ := builtIn rule listed
  obtain ⟨values,illegal,containers⟩ := Rules.marks_of_catalogue _ settings rule member block linked original known
  rw [← code] at values illegal containers
  refine ⟨fun kind element there attr held covered => ?_,fun kind element there attr held covered => ?_,
    fun kind container there same written sliced shown => ?_⟩
  · obtain ⟨_,_,marks,static⟩ := values kind
    obtain ⟨rfl,rfl,dynamic⟩ := marks.dynamic place element there attr held covered
    rw [static] at dynamic
    contradiction
  · obtain ⟨_,_,marks,judged,own,named,static,first⟩ := illegal kind
    obtain ⟨rfl,rfl,dynamic⟩ := marks.dynamic place element there attr held covered
    refine ⟨judged,own,named,?_,static⟩
    rcases first with rfl | ⟨before,after,parts,later⟩
    · rw [static] at dynamic
      contradiction
    · have sorted := Element.attributes_inOrder there
      rw [parts,List.pairwise_append] at sorted
      exact (List.pairwise_cons.mp sorted.2.1).1 judged later
  · obtain ⟨judged,present,reportedAt,static⟩ := containers kind
    have located : judged ∈ elements (filter.apply source) := present
    obtain ⟨starts,stops⟩ := Element.openStop_le located
    rw [Filter.byteLength_apply] at stops
    have whole := Document.location_range (Document.read source filter) _ _ (Nat.le_of_lt starts) stops
      original violation reportedAt place
    obtain ⟨start,stop⟩ := ByteRange.mk.inj (whole.symm.trans same)
    obtain rfl : judged = container := by
      rcases Element.eq_or_apart located there with same | earlier | later
      · exact same
      · omega
      · omega
    obtain ⟨content,seen⟩ := Element.exists_content located
    have dynamic := filter.isTemplated_of_shows sliced seen shown
    have text : (Document.read source filter).text = filter.apply source := rfl
    rw [text,seen,Option.getD_some,dynamic] at static
    contradiction

theorem templated_value_repeated :
    ∃ violation ∈ (Linter.standard.lint
        "<p aria-hidden=\"$\x7bx\x7d\" aria-hidden=\"yes\"></p>".toList).violations,
      violation.code = "AR008" ∧
      ∃ element ∈ elements "<p aria-hidden=\"$\x7bx\x7d\" aria-hidden=\"yes\"></p>".toList,
      ∃ attr ∈ element.attributes,
        violation.CoversTemplate "<p aria-hidden=\"$\x7bx\x7d\" aria-hidden=\"yes\"></p>".toList [] attr ∧
        ∃ later ∈ element.attributes, later.hasName attr.name = true ∧
          attr.range.stop ≤ later.range.start ∧ isDynamic later.value = false := by
  have found : ∃ violation ∈ (Linter.standard.lint
      "<p aria-hidden=\"$\x7bx\x7d\" aria-hidden=\"yes\"></p>".toList).violations,
      violation.code = "AR008" ∧ violation.range = ⟨3,21⟩ := by decide +kernel
  have given : ∃ element ∈ elements "<p aria-hidden=\"$\x7bx\x7d\" aria-hidden=\"yes\"></p>".toList,
      ∃ attr ∈ element.attributes, attr.valueRange = some ⟨16,20⟩ := by decide +kernel
  have unfiltered : (Filter.controlFlow Filter.defaultNameSpaces).ranges
      "<p aria-hidden=\"$\x7bx\x7d\" aria-hidden=\"yes\"></p>".toList = [] := by decide +kernel
  have builtIn : ∀ rule ∈ Linter.standard.analyzer.registry.rules, ∃ settings, rule ∈ Rules.catalogue settings :=
    fun rule listed => ⟨{},(List.mem_filter.mp listed).1⟩
  obtain ⟨violation,reported,code,range⟩ := found
  obtain ⟨element,there,attr,held,value⟩ := given
  have covers : violation.CoversTemplate
      "<p aria-hidden=\"$\x7bx\x7d\" aria-hidden=\"yes\"></p>".toList [] attr := by
    refine ⟨⟨16,20⟩,"$\x7bx\x7d".toList,value,by rw [range]; decide,by rw [range]; decide,by decide +kernel,?_⟩
    exact ⟨['$','\x7b'],by decide,[],['x','\x7d'],rfl,by simp [covers]⟩
  have spared := (templated_values_not_judged Linter.standard.analyzer builtIn
    (Filter.controlFlow Filter.defaultNameSpaces) rfl _ violation reported).2.1 code
  have same : (Filter.controlFlow Filter.defaultNameSpaces).apply
      "<p aria-hidden=\"$\x7bx\x7d\" aria-hidden=\"yes\"></p>".toList =
      "<p aria-hidden=\"$\x7bx\x7d\" aria-hidden=\"yes\"></p>".toList := by
    rw [Filter.apply,unfiltered]
  rw [same,unfiltered] at spared
  exact ⟨violation,reported,code,element,there,attr,held,covers,spared element there attr held covers⟩

end AccessibleMarkup
