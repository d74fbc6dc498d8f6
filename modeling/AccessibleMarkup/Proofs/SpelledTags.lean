import AccessibleMarkup.Proofs.AttributeEffects

/-! Opening tags as an author spells them, with every way to give the value of an attribute. The lexer finds one tag,
which covers the text, and the attributes are read back in order, each with the ranges that hold it, its name and
its value. The main result is `spelled_tag_read_back`. -/
namespace AccessibleMarkup.Markup

open Text

namespace RegularValue

def chars : RegularValue → List Char
  | bare => []
  | unquoted _ chars _ _ => chars
  | quoted _ _ chars _ _ => chars

def quote : RegularValue → Quote
  | bare => .bare
  | unquoted _ _ _ _ => .unquoted
  | quoted _ mark _ _ _ => if mark = '"' then .double else .single

end RegularValue

/-- An attribute with a name that may be written, and with the white space before it. -/
structure SpelledAttribute where
  space : List Char
  name : String
  value : RegularValue
  separated : space ≠ []
  blank : ∀ c ∈ space, isMarkupSpace c = true
  accepted : Fix.isAttributeName name = true

namespace SpelledAttribute

def written (attr : SpelledAttribute) : List Char := attr.name.toList ++ attr.value.render

def render (attr : SpelledAttribute) : List Char := attr.space ++ attr.written

def regular (attr : SpelledAttribute) : RegularAttribute where
  space := attr.space
  name := attr.name.toList
  value := attr.value
  separated := attr.separated
  blank := attr.blank
  nonempty := RegularAttribute.nonempty_of_isAttributeName attr.accepted
  written := RegularAttribute.written_of_isAttributeName attr.accepted

/-- What is read of an attribute of a text that starts at an offset. -/
structure ReadAs (base : Nat) (text : List Char) (attr : SpelledAttribute) (found : Attribute) : Prop where
  name : found.name = attr.name
  value : found.value = String.ofList attr.value.chars
  quote : found.quote = attr.value.quote
  range : Holds base text found.range attr.written
  nameRange : Holds base text found.nameRange attr.name.toList
  valueRange : ∀ range, found.valueRange = some range → Holds base text range attr.value.chars
  bare : found.valueRange = none ↔ attr.value = .bare

end SpelledAttribute

/-- An opening tag with one character of white space and perhaps a slash between its attributes and its end. -/
structure SpelledTag where
  name : List Char
  attributes : List SpelledAttribute
  gap : Char
  slash : Bool
  letter : ∃ c rest, name = c :: rest ∧ c.isAlpha = true
  written : ∀ c ∈ name, isNameChar c = true
  blank : isMarkupSpace gap = true

namespace SpelledTag

def render (tag : SpelledTag) : List Char :=
  '<' :: (tag.name ++ (tag.attributes.flatMap (·.render) ++ (tag.gap :: ((if tag.slash then ['/'] else []) ++ ['>']))))

def regular (tag : SpelledTag) : RegularTag where
  name := tag.name
  attributes := tag.attributes.map (·.regular)
  space := [tag.gap]
  slash := tag.slash
  letter := tag.letter
  written := tag.written
  blank := List.forall_mem_singleton.mpr tag.blank
  ended nothing := absurd nothing (List.cons_ne_nil _ _)

@[simp] theorem regular_render (tag : SpelledTag) : tag.regular.render = tag.render := by
  rw [RegularTag.render,RegularTag.inner,RegularTag.body,regular,List.flatMap_map,List.append_assoc,List.append_assoc]
  rfl

end SpelledTag

theorem RegularTag.lex_render (tag : RegularTag) :
    lex tag.render = [⟨.opening tag.slash,tag.label,0,byteLength tag.render,true⟩] := by
  have behind (offset : Nat) : lexFrom (LexPhase.afterOpening tag.label tag.slash) offset [] = [] := by
    unfold LexPhase.afterOpening
    split_ifs
    · rfl
    · split <;> rfl
  have lexed := tag.lexFrom_render 0 []
  rw [List.append_nil,behind,Nat.zero_add] at lexed
  exact lexed

namespace SpelledAttribute

variable (base : Nat) (before after : List Char)

theorem holds_written (attr : SpelledAttribute) :
    Holds base (before ++ (attr.render ++ after)) (attr.regular.place (base + byteLength before)).range
      attr.written := by
  rw [attr.regular.place_range]
  have size : byteLength attr.regular.render = byteLength attr.space + byteLength attr.written :=
    byteLength_append _ _
  refine ⟨before ++ attr.space,after,by simp [render],?_,?_⟩
  · rw [byteLength_append,Nat.add_assoc]
    rfl
  · rw [size,← Nat.add_assoc]
    rfl

theorem holds_name (attr : SpelledAttribute) :
    Holds base (before ++ (attr.render ++ after)) (attr.regular.place (base + byteLength before)).nameRange
      attr.name.toList := by
  have same : (attr.regular.place (base + byteLength before)).nameRange = ⟨base + byteLength before +
      byteLength attr.space,base + byteLength before + byteLength attr.space + byteLength attr.name.toList⟩ := by
    unfold RegularAttribute.place
    cases attr.regular.value <;> rfl
  refine ⟨before ++ attr.space,attr.value.render ++ after,by simp [render,written],?_,by rw [same]⟩
  rw [same,byteLength_append,Nat.add_assoc]

theorem readAs_place (attr : SpelledAttribute) :
    attr.ReadAs base (before ++ (attr.render ++ after)) (attr.regular.place (base + byteLength before)) := by
  have range := attr.holds_written base before after
  have nameRange := attr.holds_name base before after
  obtain ⟨space,name,value,separated,blank,accepted⟩ := attr
  have label : String.ofList name.toList = name := String.ofList_toList
  cases value with
  | bare => exact ⟨label,rfl,rfl,range,nameRange,fun range none => by contradiction,iff_of_true rfl rfl⟩
  | unquoted sign chars nonempty written =>
    refine ⟨label,congrArg String.ofList (List.reverse_reverse chars),rfl,range,nameRange,?_,
      iff_of_false (by rintro ⟨⟩) (by rintro ⟨⟩)⟩
    rintro _ ⟨rfl⟩
    refine ⟨before ++ (space ++ (name.toList ++ sign.render)),after,?_,?_,rfl⟩
    · simp [render,SpelledAttribute.written,RegularValue.render,RegularValue.chars]
    · simp only [byteLength_append,Nat.add_assoc,regular]
  | quoted sign mark chars isMark inside =>
    have one := AttributePhase.utf8Size_of_isMark isMark
    have quote : AttributePhase.quoteOf mark = if mark = '"' then .double else .single := rfl
    refine ⟨label,congrArg String.ofList (List.reverse_reverse chars),quote,range,nameRange,?_,
      iff_of_false (by rintro ⟨⟩) (by rintro ⟨⟩)⟩
    rintro _ ⟨rfl⟩
    refine ⟨before ++ (space ++ (name.toList ++ (sign.render ++ [mark]))),mark :: after,?_,?_,rfl⟩
    · simp [render,SpelledAttribute.written,RegularValue.render,RegularValue.chars]
    · simp only [byteLength_append,byteLength_cons,byteLength_nil,one,Nat.add_assoc,regular,Nat.add_zero]

theorem readAs_placeAll (attributes : List SpelledAttribute) :
    List.Forall₂ (ReadAs base (before ++ (attributes.flatMap (·.render) ++ after))) attributes
      (RegularAttribute.placeAll (attributes.map (·.regular)) (base + byteLength before)) := by
  induction attributes generalizing before with
  | nil => exact .nil
  | cons attr others ih =>
    have rest := ih (before ++ attr.render)
    rw [byteLength_append,← Nat.add_assoc,List.append_assoc] at rest
    rw [List.flatMap_cons,List.append_assoc]
    exact .cons (readAs_place base before _ attr) rest

end SpelledAttribute

/-- A tag is read back as it is spelled. -/
theorem spelled_tag_read_back (tag : SpelledTag) (base : Nat) :
    lex tag.render = [⟨.opening tag.slash,String.ofList tag.name,0,byteLength tag.render,true⟩] ∧
    readAttributes tag.render base =
      RegularAttribute.placeAll (tag.attributes.map (·.regular)) (base + 1 + byteLength tag.name) ∧
    List.Forall₂ (SpelledAttribute.ReadAs base tag.render) tag.attributes (readAttributes tag.render base) := by
  have lexed := tag.regular.lex_render
  have read := tag.regular.readAttributes_render base
  rw [tag.regular_render] at lexed read
  refine ⟨lexed,read,?_⟩
  have found := SpelledAttribute.readAs_placeAll base ('<' :: tag.name)
    (tag.gap :: ((if tag.slash then ['/'] else []) ++ ['>'])) tag.attributes
  have size : base + byteLength ('<' :: tag.name) = base + 1 + byteLength tag.name := by
    rw [byteLength_cons,← Nat.add_assoc]
    rfl
  rw [size] at found
  rw [read]
  exact found

example : ∃ tag : SpelledTag, tag.render = "<p title='é > b' value=2 />".toList :=
  ⟨⟨['p'],
    [⟨[' '],"title",.quoted .tight '\'' "é > b".toList (Or.inr rfl) (by simp),RegularAttribute.space_separated,
        RegularAttribute.space_blank,by decide⟩,
      ⟨[' '],"value",.unquoted .tight ['2'] (by simp) (List.forall_mem_singleton.mpr (by decide)),
        RegularAttribute.space_separated,RegularAttribute.space_blank,by decide⟩],
    ' ',true,⟨'p',[],rfl,rfl⟩,List.forall_mem_singleton.mpr rfl,rfl⟩,by decide⟩

end AccessibleMarkup.Markup
