import AccessibleMarkup.Proofs.AttributeEffects
import AccessibleMarkup.Proofs.PlainElements

/-! Fixes of plain markup. A fix of an attribute gives plain markup again: the same text with another
opening tag in the place of one, which differs in the value of that attribute alone. -/
namespace AccessibleMarkup.Markup

open Text

namespace PlainTag

/-- The tag with other attributes, of which those without quotes were there before. -/
def withAttributes (tag : PlainTag) (attributes : List PlainAttribute)
    (distinct : attributes.Pairwise fun first second =>
      sameIgnoringCase first.label second.label = false)
    (old : ∀ attr ∈ attributes, attr.value.isUnquoted = true → attr ∈ tag.attributes) : PlainTag :=
  { tag with
    attributes
    distinct
    ended := by
      intro slash nothing attr member
      rw [Bool.eq_false_iff]
      intro unquoted
      have quoted := tag.ended slash nothing attr (old attr member unquoted)
      rw [unquoted] at quoted
      contradiction }

/-- The second tag is the first with another value, or none, for the attribute of a name. -/
structure Updates (tag changed : PlainTag) (key : String) (value : Option String) : Prop where
  name : changed.name = tag.name
  slash : changed.slash = tag.slash
  value : ∀ other, changed.value? other =
    if sameIgnoringCase key other then value else tag.value? other

theorem find?_other (attributes : List PlainAttribute) (key : String)
    (others : ∀ attr ∈ attributes, sameIgnoringCase attr.label key = false) :
    (attributes.find? fun attr => sameIgnoringCase attr.label key) = none := by
  rw [List.find?_eq_none]
  intro attr member
  rw [others attr member]
  decide

theorem value?_of_mem (tag : PlainTag) (attr : PlainAttribute) (member : attr ∈ tag.attributes) (name : String)
    (same : sameIgnoringCase attr.label name = true) : tag.value? name = some attr.value.text := by
  obtain ⟨left,right,parts⟩ := List.append_of_mem member
  have distinct := tag.distinct
  rw [parts,List.pairwise_append] at distinct
  have others : ∀ other ∈ left, sameIgnoringCase other.label name = false := by
    intro other earlier
    rw [sameIgnoringCase_comm,← sameIgnoringCase_congr same,sameIgnoringCase_comm]
    exact distinct.2.2 other earlier attr List.mem_cons_self
  rw [value?,parts,List.find?_append,find?_other left name others,List.find?_cons,same]
  rfl

theorem others_of_distinct (tag : PlainTag) (name : String) (left right : List PlainAttribute)
    (attr : PlainAttribute) (parts : tag.attributes = left ++ attr :: right)
    (same : sameIgnoringCase attr.label name = true)
    (before : ∀ other ∈ left, sameIgnoringCase other.label name = false) :
    ∀ other ∈ left ++ right, sameIgnoringCase other.label name = false := by
  have distinct := tag.distinct
  rw [parts,List.pairwise_append,List.pairwise_cons] at distinct
  intro other member
  rcases List.mem_append.mp member with earlier | later
  · exact before other earlier
  · rw [sameIgnoringCase_comm,← sameIgnoringCase_congr same]
    exact distinct.2.1.1 other later

theorem regular_parts (tag : PlainTag) {left right : List PlainAttribute} {attr : PlainAttribute}
    (parts : tag.attributes = left ++ attr :: right) :
    tag.regular.attributes = left.map (·.regular) ++ attr.regular :: right.map (·.regular) := by
  change tag.attributes.map _ = _
  rw [parts,List.map_append,List.map_cons]

theorem exists_replaced (tag : PlainTag) (key : String) (first second : List PlainAttribute)
    (old new : Option PlainAttribute) (parts : tag.attributes = first ++ (old.toList ++ second))
    (others : ∀ attr ∈ first ++ second, sameIgnoringCase attr.label key = false)
    (oldNamed : ∀ attr ∈ old, sameIgnoringCase attr.label key = true)
    (newNamed : ∀ attr ∈ new, sameIgnoringCase attr.label key = true)
    (quoted : ∀ attr ∈ new, attr.value.isUnquoted = false) :
    ∃ changed : PlainTag, changed.render = '<' :: (tag.name ++
        (first.flatMap (·.render) ++ (new.toList.flatMap (·.render) ++
          (second.flatMap (·.render) ++ tag.tail)))) ∧
      tag.Updates changed key (new.map (·.value.text)) := by
  have known := tag.distinct
  rw [parts,List.pairwise_append,List.pairwise_append] at known
  obtain ⟨distinctFirst,⟨_,distinctSecond,_⟩,apart⟩ := known
  have far : ∀ attr ∈ new, ∀ other ∈ first ++ second,
      sameIgnoringCase attr.label other.label = false := by
    intro attr member other present
    rw [sameIgnoringCase_congr (newNamed attr member),sameIgnoringCase_comm]
    exact others other present
  have distinct : (first ++ (new.toList ++ second)).Pairwise fun left right =>
      sameIgnoringCase left.label right.label = false := by
    rw [List.pairwise_append,List.pairwise_append]
    refine ⟨distinctFirst,⟨?_,distinctSecond,?_⟩,?_⟩
    · cases new with
      | none => exact List.Pairwise.nil
      | some attr => exact List.pairwise_singleton _ _
    · intro attr member other present
      exact far attr (Option.mem_toList.mp member) other (List.mem_append_right _ present)
    · intro other present attr member
      rcases List.mem_append.mp member with inside | later
      · rw [sameIgnoringCase_comm]
        exact far attr (Option.mem_toList.mp inside) other (List.mem_append_left _ present)
      · exact apart other present attr (List.mem_append_right _ later)
  have kept : ∀ attr ∈ first ++ (new.toList ++ second), attr.value.isUnquoted = true →
      attr ∈ tag.attributes := by
    intro attr member unquoted
    rw [parts]
    rcases List.mem_append.mp member with before | rest
    · exact List.mem_append_left _ before
    · rcases List.mem_append.mp rest with inside | later
      · rw [quoted attr (Option.mem_toList.mp inside)] at unquoted
        contradiction
      · exact List.mem_append_right _ (List.mem_append_right _ later)
  refine ⟨tag.withAttributes _ distinct kept,?_,rfl,rfl,fun other => ?_⟩
  · simp only [render,inner,withAttributes,List.flatMap_append,List.append_assoc]
    rfl
  · change ((first ++ (new.toList ++ second)).find? _).map _ = _
    rw [value?,parts]
    simp only [List.find?_append]
    cases asked : sameIgnoringCase key other with
    | true =>
      have spelled : (fun attr : PlainAttribute => sameIgnoringCase attr.label other) =
          fun attr => sameIgnoringCase attr.label key := by
        funext attr
        rw [sameIgnoringCase_comm,← sameIgnoringCase_congr asked,sameIgnoringCase_comm]
      rw [spelled,find?_other first key fun attr member => others attr (List.mem_append_left _ member),
        find?_other second key fun attr member => others attr (List.mem_append_right _ member)]
      cases new with
      | none => rfl
      | some attr => simp [newNamed attr rfl]
    | false =>
      have missed (attr : Option PlainAttribute)
          (named : ∀ found ∈ attr, sameIgnoringCase found.label key = true) :
          (attr.toList.find? fun found => sameIgnoringCase found.label other) = none := by
        cases attr with
        | none => rfl
        | some found => simp [sameIgnoringCase_congr (named found rfl),asked]
      rw [missed new newNamed,missed old oldNamed]
      rfl

end PlainTag

namespace PlainAttribute

theorem mem_placeAll (attributes : List PlainAttribute) (offset : Nat) (attr : Attribute)
    (member : attr ∈ placeAll attributes offset) :
    ∃ left found right, attributes = left ++ found :: right ∧
      attr = found.place (offset + byteLength (left.flatMap (·.render))) := by
  induction attributes generalizing offset with
  | nil => contradiction
  | cons first rest ih =>
    rcases List.mem_cons.mp member with rfl | later
    · exact ⟨[],first,rest,rfl,rfl⟩
    · obtain ⟨left,found,right,rfl,rfl⟩ := ih _ later
      refine ⟨first :: left,found,right,rfl,?_⟩
      rw [List.flatMap_cons,byteLength_append,Nat.add_assoc]

theorem place_start (attr : PlainAttribute) (offset : Nat) :
    (attr.place offset).range.start = offset + byteLength attr.space := by
  rw [← regular_place,RegularAttribute.place_range]
  rfl

end PlainAttribute

def isPlainText (value : String) : Bool := value.toList.all isPlainChar

theorem escaped_plain (value : String) (plain : isPlainText value = true) :
    ∀ c ∈ escaped value, isPlainChar c = true ∧ c ≠ '"' := by
  intro c member
  obtain ⟨d,present,inside⟩ := List.mem_flatMap.mp member
  split at inside
  next quote =>
    have entity : ("&quot;".toList.all fun e => isPlainChar e && e != '"') = true := by decide
    simpa using List.all_eq_true.mp entity c inside
  next other =>
    rw [List.mem_singleton.mp inside]
    exact ⟨List.all_eq_true.mp plain d present,other⟩

def PlainValue.given (value : String) (plain : isPlainText value = true) : PlainValue :=
  .quoted '"' (escaped value) (Or.inl rfl) (escaped_plain value plain)

def isWritableName (name : String) : Bool :=
  !name.toList.isEmpty && name.toList.all fun c => isPlainChar c && (!endsName c && c != '=')

theorem written_of_isWritableName (name : String) (writable : isWritableName name = true) :
    name.toList ≠ [] ∧ ∀ c ∈ name.toList, isPlainChar c = true ∧ endsName c = false ∧ c ≠ '=' := by
  simpa [isWritableName] using writable

def PlainAttribute.added (name value : String) (writable : isWritableName name = true)
    (plain : isPlainText value = true) : PlainAttribute where
  space := [' ']
  name := name.toList
  value := if value = "" then .bare else .given value plain
  separated := List.cons_ne_nil _ _
  blank := by
    intro c member
    rw [List.mem_singleton.mp member]
    rfl
  nonempty := (written_of_isWritableName name writable).1
  written := (written_of_isWritableName name writable).2

namespace PlainAttribute

variable (name value : String) (writable : isWritableName name = true)
  (plain : isPlainText value = true)

theorem added_render :
    (added name value writable plain).render = ' ' :: Fix.writeAttribute name value := by
  unfold render added Fix.writeAttribute
  split
  · simp [PlainValue.render]
  · simp [PlainValue.render,PlainValue.given,Fix.writeWithValue,Fix.quotedValue,escaped]

theorem added_text : (added name value writable plain).value.text = String.ofList (escaped value) := by
  unfold added
  dsimp only
  split
  next nothing =>
    subst nothing
    rfl
  next something => rfl

@[simp] theorem added_quoted : (added name value writable plain).value.isUnquoted = false := by
  unfold added
  dsimp only
  split <;> rfl

end PlainAttribute

def PlainAttribute.setting (attr : PlainAttribute) (value : String)
    (plain : isPlainText value = true) : PlainAttribute :=
  { attr with value := .given value plain }

theorem PlainAttribute.setting_render (attr : PlainAttribute) (value : String)
    (plain : isPlainText value = true) :
    (attr.setting value plain).render = (attr.regular.setting value).render := by
  rw [← regular_render]
  rfl

theorem renderAll_opening (before after : List Token) (tag : PlainTag) :
    renderAll (before ++ .opening tag :: after) = renderAll before ++ (tag.render ++ renderAll after) := by
  rw [renderAll_append,renderAll_cons]
  rfl

theorem PlainTag.value?_of_find (tag : PlainTag) (name : String) (offset : Nat)
    (absent : findAttribute? (PlainAttribute.placeAll tag.attributes offset) name = none) :
    tag.value? name = none := by
  have nothing := attributeValue?_placeAll tag.attributes offset name
  rw [attributeValue?,absent] at nothing
  exact nothing.symm

namespace Element.StandsFor

variable {element : Element} {before after : List Token} {tag : PlainTag}

def Mends (before after : List Token) (tag : PlainTag) (edit : Edit) (name : String)
    (value : Option String) : Prop :=
  ∃ changed : PlainTag,
    edit.apply (renderAll (before ++ .opening tag :: after)) =
      .ok (renderAll (before ++ .opening changed :: after)) ∧ tag.Updates changed name value

theorem attribute_start (stands : element.StandsFor before tag) (attr : Attribute)
    (own : attr ∈ element.attributes) :
    element.start ≤ attr.range.start ∧ attr.range.start < element.openStop := by
  rw [stands.attributes] at own
  obtain ⟨left,found,right,parts,rfl⟩ := PlainAttribute.mem_placeAll _ _ _ own
  have size : byteLength tag.render = 1 + byteLength tag.name + byteLength (left.flatMap (·.render)) +
      byteLength found.space + byteLength found.name + byteLength found.value.render +
      byteLength (right.flatMap (·.render)) + byteLength tag.tail := by
    simp only [PlainTag.render,PlainTag.inner,parts,List.flatMap_append,List.flatMap_cons,
      PlainAttribute.render,byteLength_append,byteLength_cons]
    grind
  have bracket : byteLength tag.tail = byteLength (tag.space ++ (if tag.slash then ['/'] else [])) + 1 := by
    rw [PlainTag.tail,byteLength_append]
    rfl
  rw [found.place_start,stands.start,stands.openStop,size]
  omega

theorem writtenIn (stands : element.StandsFor before tag)
    (member : element ∈ elements (renderAll (before ++ .opening tag :: after))) :
    element.toNode.WrittenIn (renderAll (before ++ .opening tag :: after)) (renderAll before) tag.regular.name
      tag.regular.inner (renderAll after) := by
  have parts : renderAll (before ++ .opening tag :: after) =
      renderAll before ++ '<' :: (tag.name ++ (tag.inner ++ renderAll after)) := by
    rw [renderAll_opening,PlainTag.render,List.cons_append,List.append_assoc]
  obtain ⟨node,found,rfl⟩ := List.mem_map.mp member
  obtain ⟨front,name,inner,back,written⟩ := Node.exists_writtenIn _ node found
  obtain ⟨rfl,_⟩ := append_inj_of_byteLength (written.parts.symm.trans parts)
    (written.start.trans stands.start)
  rw [tag.regular_inner]
  refine ⟨parts,written.ready,?_,stands.start.symm,stands.name,?_⟩
  · rw [← tag.regular_inner]
    exact tag.regular.opens _
  · have stop := stands.openStop
    rw [PlainTag.render,byteLength_cons,byteLength_append,← stands.start] at stop
    change _ = _ + 1 + byteLength tag.name + _
    grind

variable {name : String} {found : Attribute} (stands : element.StandsFor before tag)
  (member : element ∈ elements (renderAll (before ++ .opening tag :: after)))
include stands member

theorem writtenAttributes : Fix.writtenAttributes (renderAll (before ++ .opening tag :: after)) element.toNode =
    PlainAttribute.placeAll tag.attributes (Fix.nameStop element.toNode) := by
  rw [Fix.writtenAttributes_regular (stands.writtenIn member)]
  exact PlainAttribute.placeAll_regular _ _

theorem exists_first (known : findAttribute? (Fix.writtenAttributes
      (renderAll (before ++ .opening tag :: after)) element.toNode) name = some found) :
    ∃ left attr right, tag.attributes = left ++ attr :: right ∧
      found = attr.regular.place
        (Fix.nameStop element.toNode + byteLength ((left.map (·.regular)).flatMap (·.render))) ∧
      sameIgnoringCase attr.label name = true ∧
      ∀ other ∈ left ++ right, sameIgnoringCase other.label name = false := by
  obtain ⟨first,_,second,parts,place,same,others⟩ := Fix.exists_first_regular (stands.writtenIn member) known
  obtain ⟨left,rest,split,rfl,tail⟩ := List.map_eq_append_iff.mp parts
  obtain ⟨attr,right,rfl,rfl,rfl⟩ := List.map_eq_cons_iff.mp tail
  refine ⟨left,attr,right,split,place,same,tag.others_of_distinct name left right attr split same ?_⟩
  exact fun other earlier => others other.regular (List.mem_map_of_mem earlier)

theorem inserted (value : String) (writable : isWritableName name = true) (plain : isPlainText value = true)
    (absent : tag.value? name = none) :
    ∃ changed : PlainTag,
      (Fix.insertAttribute element.toNode (Fix.writtenAttributes
        (renderAll (before ++ .opening tag :: after)) element.toNode) name value).apply
          (renderAll (before ++ .opening tag :: after)) =
        .ok (renderAll (before ++ .opening changed :: after)) ∧
      tag.Updates changed name (some (String.ofList (escaped value))) := by
  have others : ∀ attr ∈ tag.attributes ++ [], sameIgnoringCase attr.label name = false := by
    rw [PlainTag.value?,Option.map_eq_none_iff,List.find?_eq_none] at absent
    simpa using absent
  have labelled : (PlainAttribute.added name value writable plain).label = name := String.ofList_toList
  obtain ⟨changed,rendered,updates⟩ := tag.exists_replaced name tag.attributes [] none
    (some (PlainAttribute.added name value writable plain)) (by simp) others (by simp)
    (by simp [labelled]) (by simp)
  rw [Option.map_some,PlainAttribute.added_text] at updates
  refine ⟨changed,?_,updates⟩
  rw [Fix.inserted_regular (stands.writtenIn member),renderAll_opening,rendered,tag.regular_tail]
  simp [PlainAttribute.added_render,PlainTag.regular]

theorem replaced (value : String) (plain : isPlainText value = true)
    (known : findAttribute? (Fix.writtenAttributes
      (renderAll (before ++ .opening tag :: after)) element.toNode) name = some found) :
    ∃ changed : PlainTag,
      (Edit.mk found.range (Fix.writeWithValue found.name value)).apply
          (renderAll (before ++ .opening tag :: after)) =
        .ok (renderAll (before ++ .opening changed :: after)) ∧
      tag.Updates changed name (some (String.ofList (escaped value))) := by
  obtain ⟨left,attr,right,parts,rfl,same,others⟩ := stands.exists_first member known
  obtain ⟨changed,rendered,updates⟩ := tag.exists_replaced name left right (some attr)
    (some (attr.setting value plain)) parts others
    (fun other member => by rwa [← Option.some.inj member])
    (fun other member => by rwa [← Option.some.inj member])
    (fun other member => by rw [← Option.some.inj member]; rfl)
  refine ⟨changed,?_,updates⟩
  rw [attr.regular.place_label,Fix.replaced_regular (stands.writtenIn member) (tag.regular_parts parts),
    renderAll_opening,rendered,tag.regular_tail]
  simp [PlainAttribute.setting_render,PlainTag.regular]

theorem removed (known : findAttribute? (Fix.writtenAttributes
      (renderAll (before ++ .opening tag :: after)) element.toNode) name = some found) :
    ∃ changed : PlainTag,
      (Fix.deleteAttribute (renderAll (before ++ .opening tag :: after)) element.toNode found).apply
          (renderAll (before ++ .opening tag :: after)) =
        .ok (renderAll (before ++ .opening changed :: after)) ∧
      tag.Updates changed name none := by
  obtain ⟨left,attr,right,parts,rfl,same,others⟩ := stands.exists_first member known
  obtain ⟨changed,rendered,updates⟩ := tag.exists_replaced name left right (some attr) none parts others
    (fun other member => by rwa [← Option.some.inj member]) (by simp) (by simp)
  refine ⟨changed,?_,updates⟩
  rw [Fix.deleted_regular (stands.writtenIn member) (tag.regular_parts parts),renderAll_opening,rendered,
    tag.regular_tail]
  simp [PlainTag.regular]

theorem mends_add (value : String) (writable : isWritableName name = true) (plain : isPlainText value = true)
    (parent : Option Node) (edit : Edit)
    (planned : (Fix.addAttribute name value).planOn (renderAll (before ++ .opening tag :: after))
      ⟨element.toNode,parent⟩ = .ok (.applied edit)) :
    Mends before after tag edit name (some (String.ofList (escaped value))) := by
  cases Fix.planOn_eq_applied_iff.mp planned with
  | add _ _ absent =>
    refine stands.inserted member value writable plain ?_
    rw [stands.writtenAttributes member] at absent
    apply tag.value?_of_find name (Fix.nameStop element.toNode)
    simpa [hasAttribute] using absent

theorem mends_set (value : String) (writable : tag.value? name = none → isWritableName name = true)
    (plain : isPlainText value = true) (parent : Option Node) (edit : Edit)
    (planned : (Fix.setAttribute name value).planOn (renderAll (before ++ .opening tag :: after))
      ⟨element.toNode,parent⟩ = .ok (.applied edit)) :
    Mends before after tag edit name (some (String.ofList (escaped value))) := by
  cases Fix.planOn_eq_applied_iff.mp planned with
  | set _ _ absent =>
    rw [stands.writtenAttributes member] at absent
    have missing := tag.value?_of_find name _ absent
    exact stands.inserted member value (writable missing) plain missing
  | replace _ _ known => exact stands.replaced member value plain known

theorem mends_remove (parent : Option Node) (edit : Edit)
    (planned : (Fix.removeAttribute name).planOn (renderAll (before ++ .opening tag :: after))
      ⟨element.toNode,parent⟩ = .ok (.applied edit)) :
    Mends before after tag edit name none := by
  cases Fix.planOn_eq_applied_iff.mp planned with
  | delete _ known => exact stands.removed member known

end Element.StandsFor

theorem planOn_of_plan (tokens : List Token) (element : Element)
    (member : element ∈ elements (renderAll tokens)) (anchor : Nat) (starts : element.start ≤ anchor)
    (stops : anchor < element.openStop) (fix : Fix) (edit : Edit)
    (planned : fix.plan (renderAll tokens) anchor (Filter.controlFlow Filter.defaultNameSpaces) =
      .ok (.applied edit)) :
    ∃ parent, FixTarget.locate? (renderAll tokens) anchor = some ⟨element.toNode,parent⟩ ∧
      fix.planOn (renderAll tokens) ⟨element.toNode,parent⟩ = .ok (.applied edit) := by
  obtain ⟨node,found,rfl⟩ := List.mem_map.mp member
  obtain ⟨parent,located⟩ := FixTarget.locate?_inside (renderAll tokens) node found anchor starts stops
  refine ⟨parent,located,?_⟩
  unfold Fix.plan at planned
  dsimp only at planned
  rw [Filter.apply_toMarkupFilter,filter_renderAll,located] at planned
  split at planned
  · contradiction
  · split at planned
    · contradiction
    · exact planned

end AccessibleMarkup.Markup
