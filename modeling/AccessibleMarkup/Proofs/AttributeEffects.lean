import AccessibleMarkup.Proofs.FixLocality
import AccessibleMarkup.Proofs.PlannedEdits
import AccessibleMarkup.Proofs.RegularTags

/-! What the fixes of attributes make of a regular tag, and of the document around it. The tag is written again
with one attribute more, one less or one changed, it is read as it is written, and nothing else in the document
is read otherwise than before, but for the offsets. -/
namespace AccessibleMarkup

open Text Markup

namespace Markup

@[simp] theorem sameIgnoringCase_refl (name : String) : sameIgnoringCase name name = true := by
  rw [sameIgnoringCase,beq_self_eq_true]

theorem sameIgnoringCase_comm (first second : String) :
    sameIgnoringCase first second = sameIgnoringCase second first := by
  rw [sameIgnoringCase,sameIgnoringCase,Bool.beq_comm]

theorem sameIgnoringCase_congr {first second : String} (same : sameIgnoringCase first second = true)
    (name : String) : sameIgnoringCase first name = sameIgnoringCase second name := by
  rw [sameIgnoringCase,beq_iff_eq] at same
  rw [sameIgnoringCase,sameIgnoringCase,same]

/-- The characters of a value as a fix writes them. -/
def escaped (value : String) : List Char :=
  value.toList.flatMap fun c => if c = '"' then "&quot;".toList else [c]

def Attribute.Content.added (name value : String) : Attribute.Content :=
  if value = "" then ⟨name,"",.bare⟩ else ⟨name,String.ofList (escaped value),.double⟩

/-- Gives the first attribute of the name the value, in double quotes, or adds it. -/
def Attribute.Content.setFirst (name value : String) : List Attribute.Content → List Attribute.Content
  | [] => [.added name value]
  | attr :: rest =>
    if sameIgnoringCase attr.name name then ⟨attr.name,String.ofList (escaped value),.double⟩ :: rest
    else attr :: setFirst name value rest

def Attribute.Content.removeFirst (name : String) (attrs : List Attribute.Content) : List Attribute.Content :=
  attrs.eraseP fun attr => sameIgnoringCase attr.name name

end Markup

/-- What a fix of an attribute makes of the attributes of a tag. -/
def Fix.amend : Fix → List Attribute.Content → List Attribute.Content
  | addAttribute name value, attrs => attrs ++ [.added name value]
  | setAttribute name value, attrs => Attribute.Content.setFirst name value attrs
  | removeAttribute name, attrs => Attribute.Content.removeFirst name attrs
  | _, attrs => attrs

namespace Markup

theorem escaped_ne_mark (value : String) : ∀ c ∈ escaped value, c ≠ '"' := by
  intro c member
  obtain ⟨d,_,written⟩ := List.mem_flatMap.mp member
  split_ifs at written with mark
  · rintro rfl
    revert written
    decide
  · rwa [List.mem_singleton.mp written]

theorem double_isMark : '"' = '"' ∨ '"' = '\'' := Or.inl rfl

def RegularValue.given (value : String) : RegularValue :=
  .quoted .tight '"' (escaped value) double_isMark (escaped_ne_mark value)

namespace RegularAttribute

theorem space_separated : [' '] ≠ [] := List.cons_ne_nil _ _

theorem space_blank : ∀ c ∈ [' '], isMarkupSpace c = true := by
  intro c member
  rw [List.mem_singleton.mp member]
  rfl

theorem nonempty_of_isAttributeName {name : String} (valid : Fix.isAttributeName name = true) :
    name.toList ≠ [] :=
  (continues_of_isAttributeName valid).1

theorem written_of_isAttributeName {name : String} (valid : Fix.isAttributeName name = true) :
    ∀ c ∈ name.toList, endsName c = false ∧ c ≠ '=' :=
  (continues_of_isAttributeName valid).2

def spaced (name : String) (valid : Fix.isAttributeName name = true) (value : RegularValue) : RegularAttribute where
  space := [' ']
  name := name.toList
  value
  separated := space_separated
  blank := space_blank
  nonempty := nonempty_of_isAttributeName valid
  written := written_of_isAttributeName valid

def added (name value : String) (valid : Fix.isAttributeName name = true) : RegularAttribute :=
  spaced name valid (if value = "" then .bare else .given value)

def setting (attr : RegularAttribute) (value : String) : RegularAttribute := { attr with value := .given value }

theorem added_render (name value : String) (valid : Fix.isAttributeName name = true) :
    (added name value valid).render = ' ' :: Fix.writeAttribute name value := by
  unfold render added spaced Fix.writeAttribute
  dsimp only
  split_ifs
  · simp [RegularValue.render]
  · simp [RegularValue.render,RegularValue.given,EqualsSign.render,EqualsSign.tight,Fix.writeWithValue,
      Fix.quotedValue,escaped]

theorem added_content (name value : String) (valid : Fix.isAttributeName name = true) :
    (added name value valid).content = .added name value := by
  unfold content place added spaced Attribute.Content.added
  dsimp only
  split_ifs
  · simp [Attribute.content,WrittenName.bare,label]
  · simp [Attribute.content,WrittenName.withValue,label,RegularValue.given,AttributePhase.quoteOf]

@[simp] theorem added_quoted (name value : String) (valid : Fix.isAttributeName name = true) :
    (added name value valid).value.isUnquoted = false := by
  unfold added spaced
  dsimp only
  split_ifs <;> rfl

theorem setting_render (attr : RegularAttribute) (value : String) :
    (attr.setting value).render = attr.space ++ Fix.writeWithValue attr.label value := by
  simp [render,setting,label,RegularValue.render,RegularValue.given,EqualsSign.render,EqualsSign.tight,
    Fix.writeWithValue,Fix.quotedValue,escaped]

theorem setting_content (attr : RegularAttribute) (value : String) :
    (attr.setting value).content = ⟨attr.label,String.ofList (escaped value),.double⟩ := by
  simp [content,place,setting,label,RegularValue.given,Attribute.content,WrittenName.withValue,
    AttributePhase.quoteOf]

def setFirst (name value : String) (valid : Fix.isAttributeName name = true) :
    List RegularAttribute → List RegularAttribute
  | [] => [added name value valid]
  | attr :: rest =>
    if sameIgnoringCase attr.label name then attr.setting value :: rest
    else attr :: setFirst name value valid rest

variable {name value : String} {valid : Fix.isAttributeName name = true}

theorem setFirst_split (left right : List RegularAttribute) (attr : RegularAttribute)
    (others : ∀ other ∈ left, sameIgnoringCase other.label name = false)
    (named : sameIgnoringCase attr.label name = true) :
    setFirst name value valid (left ++ attr :: right) = left ++ attr.setting value :: right := by
  induction left with
  | nil => rw [List.nil_append,setFirst,if_pos named,List.nil_append]
  | cons other left ih =>
    have apart := others other List.mem_cons_self
    rw [List.cons_append,setFirst,apart,ih fun next member => others next (List.mem_cons_of_mem _ member)]
    rfl

theorem setFirst_absent (attrs : List RegularAttribute)
    (others : ∀ other ∈ attrs, sameIgnoringCase other.label name = false) :
    setFirst name value valid attrs = attrs ++ [added name value valid] := by
  induction attrs with
  | nil => rfl
  | cons other rest ih =>
    have apart := others other List.mem_cons_self
    rw [setFirst,apart,ih fun next member => others next (List.mem_cons_of_mem _ member)]
    rfl

theorem setFirst_content (attrs : List RegularAttribute) :
    (setFirst name value valid attrs).map content = Attribute.Content.setFirst name value (attrs.map content) := by
  induction attrs with
  | nil => rw [setFirst,List.map_singleton,added_content]; rfl
  | cons attr rest ih =>
    rw [setFirst,List.map_cons,Attribute.Content.setFirst,content_name]
    split_ifs
    · rw [List.map_cons,setting_content]
    · rw [List.map_cons,ih]

theorem removeFirst_content (attrs : List RegularAttribute) :
    (attrs.eraseP fun attr => sameIgnoringCase attr.label name).map content =
      Attribute.Content.removeFirst name (attrs.map content) := by
  induction attrs with
  | nil => rfl
  | cons attr rest ih =>
    unfold Attribute.Content.removeFirst at ih ⊢
    rw [List.map_cons,List.eraseP_cons,List.eraseP_cons,content_name]
    cases sameIgnoringCase attr.label name with
    | true => rfl
    | false => exact congrArg (attr.content :: ·) ih

theorem find_placeAll (attributes : List RegularAttribute) (offset : Nat) (name : String) :
    match findAttribute? (placeAll attributes offset) name with
    | none => ∀ attr ∈ attributes, sameIgnoringCase attr.label name = false
    | some found => ∃ left attr right, attributes = left ++ attr :: right ∧
        found = attr.place (offset + byteLength (left.flatMap (·.render))) ∧
        sameIgnoringCase attr.label name = true ∧
        ∀ other ∈ left, sameIgnoringCase other.label name = false := by
  induction attributes generalizing offset with
  | nil => simp [placeAll,findAttribute?]
  | cons attr rest ih =>
    have known : (attr.place offset).hasName name = sameIgnoringCase attr.label name := by
      rw [Attribute.hasName,attr.place_label]
    have further := ih (offset + byteLength attr.render)
    unfold findAttribute? at further ⊢
    rw [placeAll,List.find?_cons,known]
    cases named : sameIgnoringCase attr.label name with
    | true => exact ⟨[],attr,rest,rfl,by simp,named,by simp⟩
    | false =>
      dsimp only
      cases found : (placeAll rest (offset + byteLength attr.render)).find? (·.hasName name) with
      | none =>
        rw [found] at further
        intro other member
        rcases List.mem_cons.mp member with rfl | later
        · exact named
        · exact further other later
      | some attr' =>
        rw [found] at further
        obtain ⟨left,here,right,parts,place,same,others⟩ := further
        refine ⟨attr :: left,here,right,by rw [parts]; rfl,?_,same,fun other member => ?_⟩
        · rw [place,List.flatMap_cons,byteLength_append,Nat.add_assoc]
        · rcases List.mem_cons.mp member with rfl | later
          · exact named
          · exact others other later

end RegularAttribute

/-- The tag with other attributes, of which those without quotes were there before. -/
def RegularTag.withAttributes (tag : RegularTag) (attributes : List RegularAttribute)
    (old : ∀ attr ∈ attributes, attr.value.isUnquoted = true → attr ∈ tag.attributes) : RegularTag :=
  { tag with
    attributes
    ended := fun nothing attr member unquoted => tag.ended nothing attr (old attr member unquoted) unquoted }

end Markup

def Fix.rewrite (fix : Fix) (valid : fix.invalidName? = none) (attrs : List RegularAttribute) :
    List RegularAttribute :=
  match fix, valid with
  | addAttribute name value, valid => attrs ++ [.added name value (by simpa [invalidName?] using valid)]
  | setAttribute name value, valid =>
    RegularAttribute.setFirst name value (by simpa [invalidName?] using valid) attrs
  | removeAttribute name, _ => attrs.eraseP fun attr => sameIgnoringCase attr.label name
  | _, _ => attrs

namespace Fix

variable (fix : Fix) (valid : fix.invalidName? = none)

theorem rewrite_content (attrs : List RegularAttribute) :
    (fix.rewrite valid attrs).map RegularAttribute.content = fix.amend (attrs.map RegularAttribute.content) := by
  cases fix with
  | addAttribute name value =>
    rw [rewrite,amend,List.map_append,List.map_singleton,RegularAttribute.added_content]
  | setAttribute name value => exact RegularAttribute.setFirst_content attrs
  | removeAttribute name => exact RegularAttribute.removeFirst_content attrs
  | _ => rfl

theorem rewrite_old (attrs : List RegularAttribute) : ∀ attr ∈ fix.rewrite valid attrs,
    attr.value.isUnquoted = true → attr ∈ attrs := by
  intro attr member unquoted
  cases fix with
  | addAttribute name value =>
    rcases List.mem_append.mp member with old | new
    · exact old
    · rw [List.mem_singleton.mp new,RegularAttribute.added_quoted] at unquoted
      contradiction
  | setAttribute name value =>
    induction attrs with
    | nil =>
      rw [List.mem_singleton.mp member,RegularAttribute.added_quoted] at unquoted
      contradiction
    | cons first rest ih =>
      simp only [rewrite,RegularAttribute.setFirst] at member ih
      split_ifs at member
      · rcases List.mem_cons.mp member with rfl | old
        · contradiction
        · exact List.mem_cons_of_mem _ old
      · rcases List.mem_cons.mp member with rfl | later
        · exact List.mem_cons_self
        · exact List.mem_cons_of_mem _ (ih later)
  | removeAttribute name => exact List.mem_of_mem_eraseP member
  | _ => exact member

end Fix

def Markup.RegularTag.after (tag : RegularTag) (fix : Fix) (valid : fix.invalidName? = none) : RegularTag :=
  tag.withAttributes (fix.rewrite valid tag.attributes) (fix.rewrite_old valid tag.attributes)

namespace Markup.RegularTag

variable (tag : RegularTag)

@[simp] theorem after_name (fix : Fix) (valid : fix.invalidName? = none) : (tag.after fix valid).name = tag.name := rfl

@[simp] theorem after_slash (fix : Fix) (valid : fix.invalidName? = none) : (tag.after fix valid).slash = tag.slash := rfl

theorem after_render (fix : Fix) (valid : fix.invalidName? = none) :
    (tag.after fix valid).render =
      '<' :: (tag.name ++ ((fix.rewrite valid tag.attributes).flatMap (·.render) ++ tag.tail)) := by
  rw [render,inner_eq]
  rfl

/-- The white space before an attribute is its own: what stands before it ends with a character of another
kind. -/
theorem takeWhile_space (left : List RegularAttribute) (attr : RegularAttribute) :
    ((left.flatMap (·.render) ++ attr.space).reverse.takeWhile isMarkupSpace).length =
      byteLength attr.space := by
  have blank : ∀ c ∈ attr.space.reverse, isMarkupSpace c = true := fun c member =>
    attr.blank c (List.mem_reverse.mp member)
  have small : ∀ c ∈ attr.space, c.utf8Size = 1 := fun c member =>
    utf8Size_of_isMarkupSpace (attr.blank c member)
  rw [byteLength_of_small _ small,List.reverse_append,List.takeWhile_append_of_pos blank,List.length_append,
    List.length_reverse,Nat.add_eq_left,List.length_eq_zero_iff]
  rcases List.eq_nil_or_concat left with rfl | ⟨front,last,rfl⟩
  · rfl
  · obtain ⟨rest,c,rendered,shown⟩ := last.render_last
    rw [List.concat_eq_append,List.flatMap_append,List.flatMap_singleton,rendered,List.reverse_append,
      List.reverse_append,List.reverse_singleton,List.singleton_append,List.cons_append,List.takeWhile_cons,shown]
    rfl

end Markup.RegularTag

namespace Fix

variable {text before after : List Char} {node : Node} {tag : RegularTag}

theorem writtenAttributes_regular (written : node.WrittenIn text before tag.name tag.inner after) :
    writtenAttributes text node = RegularAttribute.placeAll tag.attributes (nameStop node) := by
  rw [written.writtenAttributes_eq,tag.readAttributes_inner]

theorem apply_regular (written : node.WrittenIn text before tag.name tag.inner after)
    (front found back replacement : List Char) (parts : tag.inner = front ++ (found ++ back)) (edit : Edit)
    (start : edit.range.start = nameStop node + byteLength front)
    (stop : edit.range.stop = nameStop node + byteLength front + byteLength found)
    (made : edit.replacement = replacement) :
    edit.apply text = .ok (before ++ ('<' :: (tag.name ++ (front ++ (replacement ++ back))) ++ after)) := by
  have applied := Edit.apply_replacement (before ++ '<' :: (tag.name ++ front)) found (back ++ after) replacement
  have size : byteLength (before ++ '<' :: (tag.name ++ front)) = nameStop node + byteLength front := by
    rw [written.nameStop_eq,← written.start]
    grind
  obtain ⟨⟨first,last⟩,inserted⟩ := edit
  obtain rfl : first = _ := start
  obtain rfl : last = _ := stop
  obtain rfl : inserted = _ := made
  rw [size] at applied
  rw [written.parts,parts]
  simpa using applied

theorem insertAttribute_offset_regular (attributes : List RegularAttribute) (node : Node) (name value : String) :
    insertAttribute node (RegularAttribute.placeAll attributes (nameStop node)) name value =
      Edit.insertion (nameStop node + byteLength (attributes.flatMap (·.render)))
        (' ' :: writeAttribute name value) := by
  rcases List.eq_nil_or_concat attributes with rfl | ⟨front,last,rfl⟩
  · rfl
  · simp only [insertAttribute,List.concat_eq_append,RegularAttribute.placeAll_append,RegularAttribute.placeAll,
      List.getLast?_concat,RegularAttribute.place_range,List.flatMap_append,List.flatMap_singleton,
      byteLength_append,Nat.add_assoc]

theorem inserted_regular (written : node.WrittenIn text before tag.name tag.inner after) (name value : String) :
    (insertAttribute node (writtenAttributes text node) name value).apply text =
      .ok (before ++ ('<' :: (tag.name ++ (tag.attributes.flatMap (·.render) ++
        (' ' :: writeAttribute name value ++ tag.tail))) ++ after)) := by
  rw [writtenAttributes_regular written,insertAttribute_offset_regular,apply_regular written
    (tag.attributes.flatMap (·.render)) [] tag.tail _ tag.inner_eq _ rfl rfl rfl,Edit.insertion]

theorem exists_first_regular (written : node.WrittenIn text before tag.name tag.inner after) {name : String}
    {found : Attribute} (known : findAttribute? (writtenAttributes text node) name = some found) :
    ∃ left attr right, tag.attributes = left ++ attr :: right ∧
      found = attr.place (nameStop node + byteLength (left.flatMap (·.render))) ∧
      sameIgnoringCase attr.label name = true ∧
      ∀ other ∈ left, sameIgnoringCase other.label name = false := by
  have search := RegularAttribute.find_placeAll tag.attributes (nameStop node) name
  rwa [← writtenAttributes_regular written,known] at search

section

variable (written : node.WrittenIn text before tag.name tag.inner after) {left right : List RegularAttribute}
  {attr : RegularAttribute} (parts : tag.attributes = left ++ attr :: right)
include written parts

theorem replaced_regular (value : String) :
    (Edit.mk (attr.place (nameStop node + byteLength (left.flatMap (·.render)))).range
      (writeWithValue attr.label value)).apply text =
      .ok (before ++ ('<' :: (tag.name ++ ((left ++ attr.setting value :: right).flatMap (·.render) ++
        tag.tail)) ++ after)) := by
  have around : tag.inner = left.flatMap (·.render) ++ attr.space ++
      (attr.name ++ attr.value.render ++ (right.flatMap (·.render) ++ tag.tail)) := by
    rw [tag.inner_eq,parts]
    simp [RegularAttribute.render]
  rw [apply_regular written _ _ _ _ around _ ?_ ?_ rfl]
  · simp [RegularAttribute.setting_render]
  · simp only [attr.place_range,byteLength_append,Nat.add_assoc]
  · simp only [attr.place_range,RegularAttribute.render,byteLength_append,Nat.add_assoc]

theorem deleted_regular :
    (deleteAttribute text node (attr.place (nameStop node + byteLength (left.flatMap (·.render))))).apply text =
      .ok (before ++ ('<' :: (tag.name ++ ((left ++ right).flatMap (·.render) ++ tag.tail)) ++ after)) := by
  have around : tag.inner = left.flatMap (·.render) ++ (attr.render ++ (right.flatMap (·.render) ++ tag.tail)) := by
    rw [tag.inner_eq,parts]
    simp
  have front : slice? text (nameStop node)
      (attr.place (nameStop node + byteLength (left.flatMap (·.render)))).range.start =
        some (left.flatMap (·.render) ++ attr.space) := by
    have sliced := slice?_append (before ++ '<' :: tag.name) (left.flatMap (·.render) ++ attr.space)
      (attr.name ++ (attr.value.render ++ (right.flatMap (·.render) ++ (tag.tail ++ after))))
    have here : byteLength (before ++ '<' :: tag.name) = nameStop node := by
      rw [written.nameStop_eq,byteLength_append,byteLength_cons,written.start]
      grind
    rw [here] at sliced
    rw [attr.place_range]
    simp only [byteLength_append,← Nat.add_assoc] at sliced ⊢
    rw [← sliced,written.parts,around]
    simp [RegularAttribute.render]
  rw [apply_regular written _ _ _ [] around _ ?_ ?_ rfl]
  · simp
  · rw [deleteAttribute_eq front,RegularTag.takeWhile_space,attr.place_range]
    dsimp only
    omega
  · simp only [deleteAttribute]
    rw [attr.place_range]

end

/-- A fix of an attribute writes the tag again with its attributes as the fix makes them. -/
theorem planOn_regular (written : node.WrittenIn text before tag.name tag.inner after) (fix : Fix)
    (kind : fix.changesAttributes = true) (valid : fix.invalidName? = none) (parent : Option Node) (edit : Edit)
    (planned : fix.planOn text ⟨node,parent⟩ = .ok (.applied edit)) :
    edit.apply text = .ok (before ++ ((tag.after fix valid).render ++ after)) := by
  have added (name value : String) (writable : isAttributeName name = true) :
      (tag.attributes ++ [RegularAttribute.added name value writable]).flatMap (·.render) =
        tag.attributes.flatMap (·.render) ++ ' ' :: writeAttribute name value := by
    rw [List.flatMap_append,List.flatMap_singleton,RegularAttribute.added_render]
  rw [tag.after_render fix valid]
  cases planOn_eq_applied_iff.mp planned with
  | add name value =>
    rw [inserted_regular written,rewrite,added,List.append_assoc]
  | set name value absent =>
    have search := RegularAttribute.find_placeAll tag.attributes (nameStop node) name
    rw [← writtenAttributes_regular written,absent] at search
    rw [inserted_regular written,rewrite,RegularAttribute.setFirst_absent _ search,added,List.append_assoc]
  | replace name value known =>
    obtain ⟨left,attr,right,parts,rfl,named,others⟩ := exists_first_regular written known
    rw [attr.place_label,replaced_regular written parts,rewrite,parts,
      RegularAttribute.setFirst_split left right attr others named]
  | delete name known =>
    obtain ⟨left,attr,right,parts,rfl,named,others⟩ := exists_first_regular written known
    have apart : ∀ other ∈ left, ¬ sameIgnoringCase other.label name = true := fun other member => by
      rw [others other member]
      decide
    rw [deleted_regular written parts,rewrite,parts,List.eraseP_append_right _ apart,
      List.eraseP_cons,named]
    rfl
  | wrap | remove | renameBoth | renameOpening => contradiction

end Fix

end AccessibleMarkup
