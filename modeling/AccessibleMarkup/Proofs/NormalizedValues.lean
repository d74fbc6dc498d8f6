import AccessibleMarkup.Proofs.RegularRepairs

/-! Setting the value of an attribute of a regular tag, once and again. The first attribute of the name ends up
with the value in double quotes, and once it has, nothing changes any more. The one exception is an attribute
that is not there and whose value is empty: it is added as a bare name, which the next application writes with
quotes. -/
namespace AccessibleMarkup

open Text Markup

namespace Markup.Attribute.Content

def find? (attrs : List Content) (name : String) : Option Content :=
  List.find? (fun attr => sameIgnoringCase attr.name name) attrs

def holds (attrs : List Content) (name value : String) : Bool :=
  (find? attrs name).any fun attr => attr.value = value && attr.quote = .double

theorem find?_content (attributes : List Attribute) (name : String) :
    find? (attributes.map Attribute.content) name = (findAttribute? attributes name).map Attribute.content := by
  rw [find?,List.find?_map]
  rfl

theorem find?_setFirst (attrs : List Content) (name value : String) :
    find? (setFirst name value attrs) name = some (match find? attrs name with
      | some attr => ⟨attr.name,String.ofList (escaped value),.double⟩
      | none => .added name value) := by
  induction attrs with
  | nil =>
    have named : sameIgnoringCase (added name value).name name = true := by
      unfold added
      split_ifs <;> simp [sameIgnoringCase]
    simp [find?,setFirst,named]
  | cons attr rest ih =>
    unfold find? at ih ⊢
    rw [setFirst,List.find?_cons]
    cases named : sameIgnoringCase attr.name name with
    | true =>
      rw [if_pos rfl,List.find?_cons]
      simp only [named]
    | false =>
      rw [if_neg (by decide),List.find?_cons,named]
      exact ih

def value? (attrs : List Content) (name : String) : Option String := (find? attrs name).map (·.value)

theorem value?_content (attributes : List Attribute) (name : String) :
    value? (attributes.map Attribute.content) name = attributeValue? attributes name := by
  rw [value?,find?_content,Option.map_map]
  rfl

theorem find?_setFirst_other (attrs : List Content) (name value other : String)
    (apart : sameIgnoringCase name other = false) : find? (setFirst name value attrs) other = find? attrs other := by
  have elsewhere (called : String) (named : sameIgnoringCase called name = true) :
      sameIgnoringCase called other = false := by
    simp only [sameIgnoringCase,beq_iff_eq,beq_eq_false_iff_ne] at named apart ⊢
    rwa [named]
  induction attrs with
  | nil =>
    have called : (added name value).name = name := by
      unfold added
      split_ifs <;> rfl
    simp [find?,setFirst,called,apart]
  | cons attr rest ih =>
    unfold find? at ih ⊢
    rw [setFirst]
    split_ifs with named
    · have away := elsewhere attr.name named
      simp only [List.find?_cons,away]
    · rw [List.find?_cons,List.find?_cons,ih]

end Markup.Attribute.Content

namespace Markup.RegularAttribute

variable {name value : String} {valid : Fix.isAttributeName name = true}

theorem content_double (attr : RegularAttribute) (double : attr.content.quote = .double) :
    escaped attr.content.value = attr.content.value.toList := by
  unfold content place at double ⊢
  cases value : attr.value with
  | bare => rw [value] at double; contradiction
  | unquoted sign chars nonempty written => rw [value] at double; contradiction
  | quoted sign mark chars isMark inside =>
    rcases isMark with rfl | rfl
    · have plain : chars.flatMap (fun c => if c = '"' then "&quot;".toList else [c]) = chars.flatMap ([·]) :=
        List.flatMap_congr fun c member => if_neg (inside c member)
      simpa [Attribute.content,WrittenName.withValue,escaped] using plain
    · rw [value] at double
      contradiction

@[simp] theorem setting_setting (attr : RegularAttribute) : (attr.setting value).setting value = attr.setting value := rfl

theorem setFirst_setFirst (attrs : List RegularAttribute)
    (settles : value ≠ "" ∨ (Attribute.Content.find? (attrs.map content) name).isSome = true) :
    setFirst name value valid (setFirst name value valid attrs) = setFirst name value valid attrs := by
  induction attrs with
  | nil =>
    have given : value ≠ "" := settles.resolve_right (by simp [Attribute.Content.find?])
    have named : sameIgnoringCase (added name value valid).label name = true := by
      simp [label,added,spaced,sameIgnoringCase]
    rw [setFirst,setFirst,if_pos named]
    simp [added,spaced,setting,given]
  | cons attr rest ih =>
    rw [setFirst]
    split_ifs with named
    · have again : sameIgnoringCase (attr.setting value).label name = true := named
      rw [setFirst,if_pos again,setting_setting]
    · rw [setFirst,if_neg named,ih (settles.imp_right fun found => ?_)]
      rw [Attribute.Content.find?,List.map_cons,List.find?_cons,content_name,Bool.eq_false_iff.mpr named] at found
      exact found

end Markup.RegularAttribute

namespace Fix

/-- The text after a fix at an anchor, whether it was changed or not. -/
def textAfter (fix : Fix) (text : List Char) (anchor : Nat) : Except FixError (List Char) := do
  match ← fix.plan text anchor Filter.keep with
  | .applied edit => edit.apply text
  | .skipped _ => return text

theorem planOn_setAttribute (text : List Char) (target : FixTarget) (name value : String) :
    if Attribute.Content.holds ((writtenAttributes text target.node).map Attribute.content) name value then
      (setAttribute name value).planOn text target = .ok (.skipped .alreadySatisfied)
    else ∃ edit, (setAttribute name value).planOn text target = .ok (.applied edit) := by
  rw [Attribute.Content.holds,Attribute.Content.find?_content]
  simp only [planOn,planSet]
  cases findAttribute? (writtenAttributes text target.node) name with
  | none => exact ⟨_,rfl⟩
  | some found =>
    dsimp only [Option.map_some,Option.any_some,Attribute.content]
    split_ifs
    · rfl
    · exact ⟨_,rfl⟩

variable {text before after : List Char} {node : Node} {tag : RegularTag}

theorem textAfter_setAttribute (written : node.WrittenIn text before tag.name tag.inner after)
    (member : node ∈ outlineNodes text) (name value : String)
    (valid : (setAttribute name value).invalidName? = none) :
    (setAttribute name value).textAfter text node.start =
      .ok (if Attribute.Content.holds (tag.attributes.map RegularAttribute.content) name value then text
        else before ++ ((tag.after (setAttribute name value) valid).render ++ after)) := by
  obtain ⟨parent,planned⟩ := plan_inside (setAttribute name value) text node member node.start le_rfl
    (by rw [written.openStop]; omega) valid
  have outcome := planOn_setAttribute text ⟨node,parent⟩ name value
  have contents : (writtenAttributes text node).map Attribute.content =
      tag.attributes.map RegularAttribute.content := Node.attributes_regular written
  rw [contents] at outcome
  rw [textAfter,planned]
  split_ifs at outcome ⊢
  · rw [outcome]
    rfl
  · obtain ⟨edit,made⟩ := outcome
    rw [made]
    exact planOn_regular written _ rfl valid parent edit made

theorem find?_after (tag : RegularTag) (name value : String)
    (valid : (setAttribute name value).invalidName? = none) :
    Attribute.Content.find? ((tag.after (setAttribute name value) valid).attributes.map RegularAttribute.content) name =
      some (match Attribute.Content.find? (tag.attributes.map RegularAttribute.content) name with
        | some attr => ⟨attr.name,String.ofList (escaped value),.double⟩
        | none => .added name value) := by
  rw [← Attribute.Content.find?_setFirst]
  exact congrArg (Attribute.Content.find? · name) ((setAttribute name value).rewrite_content valid tag.attributes)

end Fix

namespace Markup

variable {text before after : List Char} {node : Node} {tag : RegularTag} {name value : String}

/-- What the attributes of a tag have to be for the value to be in double quotes. -/
def Attribute.Content.Normalized (attrs : List Attribute.Content) (name value : String) : Prop :=
  ∃ attr, find? attrs name = some attr ∧ attr.quote = .double ∧ attr.value = String.ofList (escaped value)

theorem RegularTag.normalized_of_holds (tag : RegularTag)
    (held : Attribute.Content.holds (tag.attributes.map RegularAttribute.content) name value = true) :
    Attribute.Content.Normalized (tag.attributes.map RegularAttribute.content) name value := by
  rw [Attribute.Content.holds,Option.any_eq_true] at held
  obtain ⟨attr,found,same⟩ := held
  obtain ⟨written,double⟩ : attr.value = value ∧ attr.quote = .double := by simpa using same
  refine ⟨attr,found,double,?_⟩
  obtain ⟨source,_,rfl⟩ := List.mem_map.mp (List.mem_of_find?_eq_some found)
  have plain := source.content_double double
  rw [written] at plain
  rw [plain,String.ofList_toList,written]

theorem RegularTag.normalized_after_iff (tag : RegularTag)
    (valid : (Fix.setAttribute name value).invalidName? = none) :
    Attribute.Content.Normalized
        ((tag.after (.setAttribute name value) valid).attributes.map RegularAttribute.content) name value ↔
      value ≠ "" ∨ (Attribute.Content.find? (tag.attributes.map RegularAttribute.content) name).isSome = true := by
  rw [Attribute.Content.Normalized,Fix.find?_after]
  cases Attribute.Content.find? (tag.attributes.map RegularAttribute.content) name with
  | some attr => simp
  | none =>
    unfold Attribute.Content.added
    split_ifs with empty <;> simp [empty]

/-- What setting an attribute leaves behind: a regular tag at the same place, the old one if it held the value. -/
theorem Node.WrittenIn.exists_set (written : node.WrittenIn text before tag.name tag.inner after)
    (member : node ∈ outlineNodes text) (valid : (Fix.setAttribute name value).invalidName? = none) :
    ∃ result other again, (Fix.setAttribute name value).textAfter text node.start = .ok result ∧
      again ∈ outlineNodes result ∧ again.start = node.start ∧
      again.WrittenIn result before (RegularTag.name other) (RegularTag.inner other) after ∧
      (Attribute.Content.holds (tag.attributes.map RegularAttribute.content) name value = true ∧ other = tag ∨
        Attribute.Content.holds (tag.attributes.map RegularAttribute.content) name value = false ∧
          other = tag.after (.setAttribute name value) valid) := by
  have made := Fix.textAfter_setAttribute written member name value valid
  split_ifs at made with held
  · exact ⟨text,tag,node,made,member,rfl,written,Or.inl ⟨held,rfl⟩⟩
  · have rewritten := written.rewrite_tag (tag.after_name _ valid)
    refine ⟨_,_,_,made,?_,?_,rewritten,Or.inr ⟨Bool.eq_false_iff.mpr held,rfl⟩⟩
    · rw [written.outlineNodes_rewrite (tag.after_name _ valid) (tag.after_slash _ valid)]
      exact List.mem_map_of_mem member
    · exact node.move_before _ _ (by rw [written.openStop]; omega)

theorem RegularTag.normalized_of_unchanged (written : node.WrittenIn text before tag.name tag.inner after)
    (member : node ∈ outlineNodes text) (valid : (Fix.setAttribute name value).invalidName? = none)
    (unchanged : (Fix.setAttribute name value).textAfter text node.start = .ok text) :
    Attribute.Content.Normalized (tag.attributes.map RegularAttribute.content) name value := by
  rw [Fix.textAfter_setAttribute written member name value valid] at unchanged
  split_ifs at unchanged with held
  · exact tag.normalized_of_holds held
  · have inner : (tag.after (.setAttribute name value) valid).inner = tag.inner := by
      have same := (Except.ok.inj unchanged).trans written.parts
      simp only [RegularTag.render,List.cons_append,List.append_assoc,List.append_cancel_left_eq,List.cons.injEq,
        true_and] at same
      exact List.append_cancel_right (List.append_cancel_left same)
    have contents : (tag.after (.setAttribute name value) valid).attributes.map RegularAttribute.content =
        tag.attributes.map RegularAttribute.content := by
      rw [← RegularAttribute.placeAll_content _ 0,← RegularTag.readAttributes_inner,inner,
        RegularTag.readAttributes_inner,RegularAttribute.placeAll_content]
    have present := Fix.find?_after tag name value valid
    rw [contents] at present
    rw [← contents]
    exact (tag.normalized_after_iff valid).mpr (Or.inr (by rw [present]; rfl))

theorem RegularTag.after_after (tag : RegularTag) (valid : (Fix.setAttribute name value).invalidName? = none)
    (settles : value ≠ "" ∨
      (Attribute.Content.find? (tag.attributes.map RegularAttribute.content) name).isSome = true) :
    ((tag.after (.setAttribute name value) valid).after (.setAttribute name value) valid).render =
      (tag.after (.setAttribute name value) valid).render := by
  rw [after_render,after_render]
  exact congrArg (fun attrs => '<' :: (tag.name ++ (List.flatMap (·.render) attrs ++ tag.tail)))
    (RegularAttribute.setFirst_setFirst tag.attributes settles)

end Markup

/-- After setting an attribute of a regular tag its first attribute of the name has the value in double quotes,
and setting it again changes nothing, exactly if there is a value or the attribute was there before. -/
theorem setAttribute_normalizes_iff (text : List Char) (element : Element) (member : element ∈ elements text)
    (tag : RegularTag) (regular : element.toNode.TagIs text tag) (name value : String)
    (valid : Fix.isAttributeName name = true) :
    ∃ result, (Fix.setAttribute name value).textAfter text element.start = .ok result ∧
      ∃ again ∈ elements result, again.start = element.start ∧
        ((∃ attr, again.attribute? name = some attr ∧ attr.quote = .double ∧
            attr.value = String.ofList (escaped value)) ↔ value ≠ "" ∨ element.has name = true) ∧
        ((Fix.setAttribute name value).textAfter result element.start = .ok result ↔
          value ≠ "" ∨ element.has name = true) := by
  obtain ⟨node,present,rfl⟩ := List.mem_map.mp member
  obtain ⟨before,after,written⟩ := Node.TagIs.exists_writtenIn present regular
  have writable : (Fix.setAttribute name value).invalidName? = none := by simp [Fix.invalidName?,valid]
  obtain ⟨result,other,again,made,found,start,rewritten,outcome⟩ := written.exists_set present writable
  have has : (Element.ofNode text node).has name =
      (Attribute.Content.find? (tag.attributes.map RegularAttribute.content) name).isSome := by
    rw [← Node.attributes_regular written,Attribute.Content.find?_content,Option.isSome_map]
    rfl
  have shown : (∃ attr, (Element.ofNode result again).attribute? name = some attr ∧ attr.quote = .double ∧
      attr.value = String.ofList (escaped value)) ↔
      Attribute.Content.Normalized (other.attributes.map RegularAttribute.content) name value := by
    rw [← Node.attributes_regular rewritten,Attribute.Content.Normalized,Attribute.Content.find?_content]
    simp [Element.attribute?,Attribute.content]
  have settled : Attribute.Content.Normalized (other.attributes.map RegularAttribute.content) name value ↔
      value ≠ "" ∨ (Element.ofNode text node).has name = true := by
    rw [has]
    rcases outcome with ⟨held,rfl⟩ | ⟨_,rfl⟩
    · have normal := other.normalized_of_holds held
      obtain ⟨attr,first,_⟩ := id normal
      exact ⟨fun _ => Or.inr (by rw [first]; rfl),fun _ => normal⟩
    · exact tag.normalized_after_iff writable
  refine ⟨result,made,Element.ofNode result again,List.mem_map_of_mem found,start,shown.trans settled,?_⟩
  have place : (Element.ofNode text node).start = again.start := start.symm
  rw [place]
  constructor
  · intro unchanged
    exact settled.mp (RegularTag.normalized_of_unchanged rewritten found writable unchanged)
  · intro settles
    rw [Fix.textAfter_setAttribute rewritten found name value writable]
    split_ifs with held
    · rfl
    · rcases outcome with ⟨before,rfl⟩ | ⟨_,rfl⟩
      · contradiction
      · rw [tag.after_after writable (by rw [← has]; exact settles),rewritten.parts]
        simp [RegularTag.render]

theorem setAttribute_normalizes_div :
    (∃ result, (Fix.setAttribute "title" "").textAfter "<div>".toList 0 = .ok result ∧
      (Fix.setAttribute "title" "").textAfter result 0 ≠ .ok result) ∧
    ∃ result, (Fix.setAttribute "title" "a\"b").textAfter "<div>".toList 0 = .ok result ∧
      (Fix.setAttribute "title" "a\"b").textAfter result 0 = .ok result := by
  let div := RegularTag.ofQuoted "div".toList ⟨'d',['i','v'],rfl,rfl⟩ (List.all_eq_true.mp rfl) [] (by simp)
  have element : ∃ element ∈ elements "<div>".toList, element.start = 0 ∧
      element.toNode.TagIs "<div>".toList div ∧ element.has "title" = false := by
    unfold Node.TagIs
    decide +kernel
  obtain ⟨element,member,start,regular,absent⟩ := element
  constructor
  · obtain ⟨result,made,_,_,_,_,unchanged⟩ :=
      setAttribute_normalizes_iff _ element member div regular "title" "" (by decide)
    rw [start] at made unchanged
    refine ⟨result,made,fun same => ?_⟩
    rcases unchanged.mp same with given | present
    · exact given rfl
    · rw [absent] at present
      contradiction
  · obtain ⟨result,made,_,_,_,_,unchanged⟩ :=
      setAttribute_normalizes_iff _ element member div regular "title" "a\"b" (by decide)
    rw [start] at made unchanged
    exact ⟨result,made,unchanged.mpr (Or.inl (by decide))⟩

end AccessibleMarkup
