import AccessibleMarkup.Document.State
import AccessibleMarkup.Proofs.PlainMarkup

/-! The elements of plain markup: each opening tag is an element, at its place in the text and with the
attributes that it was made with. -/
namespace AccessibleMarkup.Markup

open Text

theorem PlainTag.readAttributes_render (tag : PlainTag) (base : Nat) :
    readAttributes tag.render base =
      PlainAttribute.placeAll tag.attributes (base + 1 + byteLength tag.name) := by
  rw [← tag.regular_render,tag.regular.readAttributes_render]
  exact PlainAttribute.placeAll_regular _ _

@[simp, grind =] theorem renderAll_append (first second : List Token) :
    renderAll (first ++ second) = renderAll first ++ renderAll second := by
  simp [renderAll]

@[simp, grind =] theorem renderAll_cons (token : Token) (rest : List Token) :
    renderAll (token :: rest) = token.render ++ renderAll rest := rfl

theorem tagsFrom_append (first second : List Token) (offset : Nat) :
    tagsFrom offset (first ++ second) =
      tagsFrom offset first ++ tagsFrom (offset + byteLength (renderAll first)) second := by
  induction first generalizing offset with
  | nil => rfl
  | cons token rest ih =>
    rw [List.cons_append,tagsFrom,tagsFrom,ih,renderAll_cons,byteLength_append,List.append_assoc,
      Nat.add_assoc]

theorem mem_tagsFrom (tokens : List Token) (offset : Nat) (tag : Tag)
    (member : tag ∈ tagsFrom offset tokens) :
    ∃ first token second, tokens = first ++ token :: second ∧
      token.tag? (offset + byteLength (renderAll first)) = some tag := by
  induction tokens generalizing offset with
  | nil => contradiction
  | cons token rest ih =>
    rcases List.mem_append.mp member with here | later
    · exact ⟨[],token,rest,rfl,Option.mem_toList.mp here⟩
    · obtain ⟨first,found,second,rfl,same⟩ := ih _ later
      refine ⟨token :: first,found,second,rfl,?_⟩
      rw [renderAll_cons,byteLength_append,← Nat.add_assoc]
      exact same

/-- The element that an opening tag makes at its place in a text. -/
structure Element.StandsFor (element : Element) (before : List Token) (tag : PlainTag) : Prop where
  name : element.name = asciiLower tag.label
  start : element.start = byteLength (renderAll before)
  openStop : element.openStop = byteLength (renderAll before) + byteLength tag.render
  attributes : element.attributes =
    PlainAttribute.placeAll tag.attributes (byteLength (renderAll before) + 1 + byteLength tag.name)
  role : element.role = role? element.name element.attributes

theorem exists_standsFor (tokens : List Token) (element : Element)
    (member : element ∈ elements (renderAll tokens)) :
    ∃ before tag after, tokens = before ++ .opening tag :: after ∧ element.StandsFor before tag := by
  obtain ⟨node,found,rfl⟩ := List.mem_map.mp member
  obtain ⟨tag,lexed,opening,same⟩ := exists_openingTag found
  rw [lex_renderAll] at lexed
  obtain ⟨before,token,after,parts,tagged⟩ := mem_tagsFrom tokens 0 tag lexed
  rw [Nat.zero_add] at tagged
  cases token with
  | text chars nonempty plain => contradiction
  | markup body plain ended inside =>
    obtain rfl := Option.some.inj tagged
    contradiction
  | closing name letter written foreign =>
    obtain rfl := Option.some.inj tagged
    contradiction
  | opening found =>
    obtain rfl := Option.some.inj tagged
    simp only [Tag.head,Node.head,Prod.mk.injEq] at same
    obtain ⟨sameName,sameStart,sameStop⟩ := same
    have slice : slice? (renderAll tokens) node.start node.openStop = some found.render := by
      rw [← sameStart,← sameStop,parts,renderAll_append,renderAll_cons]
      exact slice?_append _ _ _
    refine ⟨before,found,after,parts,sameName.symm,sameStart.symm,sameStop.symm,?_,rfl⟩
    simp only [Element.ofNode,slice]
    rw [found.readAttributes_render,← sameStart]

namespace PlainValue

def text : PlainValue → String
  | bare => ""
  | unquoted chars _ _ _ => String.ofList chars
  | quoted _ chars _ _ => String.ofList chars

theorem text_plain (value : PlainValue) : ∀ c ∈ value.text.toList, isPlainChar c = true := by
  intro c member
  cases value with
  | bare => simp [text] at member
  | unquoted chars nonempty written last =>
    rw [text,String.toList_ofList] at member
    exact (written c member).1
  | quoted mark chars quote written =>
    rw [text,String.toList_ofList] at member
    exact (written c member).1

end PlainValue

theorem PlainAttribute.place_name (attr : PlainAttribute) (offset : Nat) :
    (attr.place offset).name = attr.label := by
  unfold place
  cases attr.value <;> rfl

theorem PlainAttribute.place_value (attr : PlainAttribute) (offset : Nat) :
    (attr.place offset).value = attr.value.text := by
  unfold place
  cases attr.value <;> simp [WrittenName.bare,WrittenName.withValue,PlainValue.text]

def PlainTag.value? (tag : PlainTag) (name : String) : Option String :=
  (tag.attributes.find? fun attr => sameIgnoringCase attr.label name).map (·.value.text)

theorem attributeValue?_placeAll (attributes : List PlainAttribute) (offset : Nat) (name : String) :
    attributeValue? (PlainAttribute.placeAll attributes offset) name =
      (attributes.find? fun attr => sameIgnoringCase attr.label name).map (·.value.text) := by
  induction attributes generalizing offset with
  | nil => rfl
  | cons attr rest ih =>
    rw [PlainAttribute.placeAll,attributeValue?,findAttribute?,List.find?_cons,List.find?_cons,
      Attribute.hasName,attr.place_name]
    split
    · simp [attr.place_value]
    · exact ih _

theorem hasAttribute_eq (attributes : List Attribute) (name : String) :
    hasAttribute attributes name = (attributeValue? attributes name).isSome := by
  rw [hasAttribute,attributeValue?,Option.isSome_map]

def roleAttributes : List String := ["role","type","list","multiple","size","href","alt"]

theorem role?_congr (name : String) (first second : List Attribute)
    (same : ∀ attr ∈ roleAttributes, attributeValue? first attr = attributeValue? second attr) :
    role? name first = role? name second := by
  have values : (attributeValue? first "role" = attributeValue? second "role" ∧
      attributeValue? first "type" = attributeValue? second "type") ∧
      (attributeValue? first "list" = attributeValue? second "list" ∧
      attributeValue? first "multiple" = attributeValue? second "multiple") ∧
      (attributeValue? first "size" = attributeValue? second "size" ∧
      attributeValue? first "href" = attributeValue? second "href") ∧
      attributeValue? first "alt" = attributeValue? second "alt" := by
    refine ⟨⟨?_,?_⟩,⟨?_,?_⟩,⟨?_,?_⟩,?_⟩ <;> exact same _ (by decide)
  have written : writtenRole? first = writtenRole? second := by rw [writtenRole?,writtenRole?,values.1.1]
  have input : inputRole? first = inputRole? second := by
    simp only [inputRole?,hasAttribute_eq,values]
  have select : isListSelect first = isListSelect second := by
    simp only [isListSelect,hasAttribute_eq,values]
  have implied : impliedRole? name first = impliedRole? name second := by
    simp only [impliedRole?,hasAttribute_eq,values,input,select]
  rw [role?,role?,written,implied]

/-- Two elements that the rules cannot tell apart by name and attributes. -/
structure Element.Alike (first second : Element) : Prop where
  name : first.name = second.name
  role : first.role = second.role
  value : ∀ attr, first.value? attr = second.value? attr

namespace Element

theorem has_eq (element : Element) (name : String) : element.has name = (element.value? name).isSome :=
  hasAttribute_eq _ _

namespace Alike

variable {first second : Element}

theorem has (alike : first.Alike second) (name : String) : first.has name = second.has name := by
  rw [has_eq,has_eq,alike.value]

theorem focusIndex? (alike : first.Alike second) : first.focusIndex? = second.focusIndex? := by
  have tabIndex : first.tabIndex? = second.tabIndex? := by rw [Element.tabIndex?,Element.tabIndex?,alike.value]
  have control : first.isControl = second.isControl := by
    simp only [isControl,alike.name,alike.has,alike.value]
  have takes : first.takesFocus = second.takesFocus := by
    simp only [takesFocus,isEditable,alike.has,alike.value,control]
  rw [Element.focusIndex?,Element.focusIndex?,tabIndex,takes]

theorem inFocusOrder (alike : first.Alike second) : first.inFocusOrder = second.inFocusOrder := by
  rw [Element.inFocusOrder,Element.inFocusOrder,alike.focusIndex?]

end Alike

end Element

end AccessibleMarkup.Markup
