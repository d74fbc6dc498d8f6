import AccessibleMarkup.Markup.Element
import AccessibleMarkup.Proofs.AttributeReading
import AccessibleMarkup.Proofs.OpeningTags
import AccessibleMarkup.Repair.Plan

/-! Adding an attribute to an element. The main result is `addAttribute_idempotent_iff`: adding an
attribute twice is adding it once at exactly the elements in whose tag the place for a new attribute
is one where a blank separates. -/
namespace AccessibleMarkup

open Text Markup

namespace FixTarget

/-- The last element that encloses an anchor is the innermost one, and the next one is the last of those before it. -/
theorem locate?_last (text : List Char) (earlier later : List Node) (node : Node)
    (parts : outlineNodes text = earlier ++ node :: later) (anchor : Nat)
    (inside : (node.start ≤ anchor && (node.start == anchor || anchor < node.stop)) = true)
    (outside : ∀ other ∈ later, ¬ (other.start ≤ anchor && (other.start == anchor || anchor < other.stop)) = true) :
    locate? text anchor = some ⟨node,(earlier.filter fun other =>
      other.start ≤ anchor && (other.start == anchor || anchor < other.stop)).getLast?⟩ := by
  rw [locate?,enclosing,parts,List.filter_append,List.filter_cons,if_pos inside,List.filter_eq_nil_iff.mpr outside]
  simp

/-- Around a place in an opening tag, its element is the innermost one, and the next one is among the
elements before it. -/
theorem locate?_parts (text : List Char) (earlier later : List Node) (node : Node)
    (parts : outlineNodes text = earlier ++ node :: later) (anchor : Nat) (starts : node.start ≤ anchor)
    (stops : anchor < node.openStop) :
    locate? text anchor = some ⟨node,(earlier.filter fun other =>
      other.start ≤ anchor && (other.start == anchor || anchor < other.stop)).getLast?⟩ := by
  have forest := outlineNodes_forest text
  have first : (outlineNodes text)[earlier.length]? = some node := by simp [parts]
  have spans := forest.spans _ node first
  have beyond : ∀ other ∈ later, anchor < other.start := by
    intro other following
    obtain ⟨j,place⟩ := List.mem_iff_getElem?.mp following
    have second : (outlineNodes text)[earlier.length + (j + 1)]? = some other := by
      rw [parts,List.getElem?_append_right (Nat.le_add_right _ _),Nat.add_sub_cancel_left]
      exact place
    have opened := forest.openStop_le _ _ node other first second (by omega)
    omega
  have inside : (node.start ≤ anchor && (node.start == anchor || anchor < node.stop)) = true := by
    have reached : anchor < node.stop := by
      unfold Node.Spans at spans
      omega
    simp [starts,reached]
  refine locate?_last text earlier later node parts anchor inside fun other following => ?_
  have after := beyond other following
  simp only [Bool.and_eq_true,decide_eq_true_eq,not_and]
  omega

/-- An element is the innermost one around every place in its opening tag. -/
theorem locate?_inside (text : List Char) (node : Node) (member : node ∈ outlineNodes text)
    (anchor : Nat) (starts : node.start ≤ anchor) (stops : anchor < node.openStop) :
    ∃ parent, locate? text anchor = some ⟨node,parent⟩ := by
  obtain ⟨earlier,later,parts⟩ := List.append_of_mem member
  exact ⟨_,locate?_parts text earlier later node parts anchor starts stops⟩

end FixTarget

namespace Markup

theorem utf8Size_toLower (c : Char) : c.toLower.utf8Size = c.utf8Size := by
  unfold Char.toLower
  split
  next upper =>
    have small : c.utf8Size = 1 := by
      rw [Char.utf8Size_eq_one_iff]
      exact UInt32.le_trans upper.2 (by decide)
    rw [small,Char.utf8Size_eq_one_iff,UInt32.le_iff_toNat_le,UInt32.toNat_add]
    have bound : c.val.toNat ≤ 90 := UInt32.le_iff_toNat_le.mp upper.2
    change (c.val.toNat + 32) % 2 ^ 32 ≤ 127
    omega
  next other => rfl

theorem toLower_cases (c : Char) : c.toLower = c ∨ 97 ≤ c.toLower.val.toNat ∧ c.toLower.val.toNat ≤ 122 := by
  unfold Char.toLower
  split
  next upper =>
    have first : 65 ≤ c.val.toNat := UInt32.le_iff_toNat_le.mp upper.1
    have last : c.val.toNat ≤ 90 := UInt32.le_iff_toNat_le.mp upper.2
    rw [UInt32.toNat_add]
    change _ ∨ 97 ≤ (c.val.toNat + 32) % 2 ^ 32 ∧ (c.val.toNat + 32) % 2 ^ 32 ≤ 122
    exact Or.inr (by omega)
  next other => exact Or.inl rfl

theorem isAlpha_toLower (c : Char) : c.toLower.isAlpha = c.isAlpha := by
  rcases toLower_cases c with same | range
  · rw [same]
  · have small : c.toLower.isAlpha = true := by
      delta Char.isAlpha Char.isUpper Char.isLower
      simp only [Bool.or_eq_true,Bool.and_eq_true,decide_eq_true_eq,ge_iff_le,UInt32.le_iff_toNat_le]
      exact Or.inr range
    rw [small]
    unfold Char.toLower at small
    split at small
    next upper =>
      delta Char.isAlpha Char.isUpper
      rw [decide_eq_true upper]
      rfl
    next => exact small.symm

@[simp] theorem toLower_toLower (c : Char) : c.toLower.toLower = c.toLower := by
  rcases toLower_cases c with same | ⟨lower,_⟩
  · rw [same,same]
  · refine dif_neg fun upper => ?_
    have last : c.toLower.val.toNat ≤ 90 := UInt32.le_iff_toNat_le.mp upper.2
    omega

@[simp] theorem asciiLower_asciiLower (name : String) : asciiLower (asciiLower name) = asciiLower name := by
  rw [asciiLower,asciiLower,String.toList_ofList,List.map_map]
  congr 2
  funext c
  exact toLower_toLower c

@[simp] theorem byteLength_asciiLower (name : String) :
    byteLength (asciiLower name).toList = byteLength name.toList := by
  rw [asciiLower,String.toList_ofList]
  induction name.toList with
  | nil => rfl
  | cons c rest ih => rw [List.map_cons,byteLength_cons,byteLength_cons,utf8Size_toLower,ih]

theorem length_of_sameIgnoringCase (left right : String)
    (same : sameIgnoringCase left right = true) : left.length = right.length := by
  rw [sameIgnoringCase,beq_iff_eq,asciiLower,asciiLower,String.ofList_inj] at same
  rw [← String.length_toList,← String.length_toList]
  simpa only [List.length_map] using congrArg List.length same

theorem hasAttribute_iff (attributes : List Attribute) (name : String) :
    hasAttribute attributes name = true ↔
      ∃ attr ∈ attributes, sameIgnoringCase attr.name name = true := by
  simp [hasAttribute,findAttribute?,Attribute.hasName]

theorem hasAttribute_of_names (attributes others : List Attribute) (name : String)
    (same : attributes.map (·.name) = others.map (·.name)) :
    hasAttribute attributes name = hasAttribute others name := by
  have anyName (attrs : List Attribute) :
      hasAttribute attrs name = (attrs.map (·.name)).any (sameIgnoringCase · name) := by
    rw [Bool.eq_iff_iff,hasAttribute_iff,List.any_map,List.any_eq_true]
    rfl
  rw [anyName,anyName,same]

theorem continues_of_isNameChar {c : Char} (named : isNameChar c = true) : endsName c = false := by
  rw [Bool.eq_false_iff]
  intro ends
  simp only [endsName,isMarkupSpace,Bool.or_eq_true,beq_iff_eq,decide_eq_true_eq] at ends
  rcases ends with ((((((((rfl | rfl) | rfl) | rfl) | rfl) | rfl) | rfl) | rfl) | rfl)
  all_goals exact absurd named (by decide)

theorem readAttributesFrom_name (name rest : List Char) (offset : Nat)
    (written : ∀ c ∈ name, isNameChar c = true) :
    readAttributesFrom .tagName offset (name ++ rest) =
      readAttributesFrom .tagName (offset + byteLength name) rest :=
  readAttributesFrom_tagName name rest offset fun c member => continues_of_isNameChar (written c member)

namespace Node.WrittenIn

variable {text before name inner after : List Char} {node : Node}

theorem nameStop_eq (written : node.WrittenIn text before name inner after) :
    Fix.nameStop node = node.start + 1 + byteLength name := by
  rw [Fix.nameStop,written.named,byteLength_asciiLower,String.toList_ofList]

/-- The attributes of an element are read from what follows the name in its tag. -/
theorem writtenAttributes_eq (written : node.WrittenIn text before name inner after) :
    Fix.writtenAttributes text node = readAttributesFrom .tagName (Fix.nameStop node) inner := by
  have stepped : AttributePhase.step .outside node.start '<' = (.tagName,none) := rfl
  rw [Fix.writtenAttributes,written.slice_tag]
  dsimp only
  rw [readAttributes,readAttributesFrom_cons,stepped,readAttributesFrom_name _ _ _ written.tag.written,
    written.nameStop_eq]
  rfl

end Node.WrittenIn

theorem OpeningTag.goes_on {name first second after : List Char}
    (tag : OpeningTag name (first ++ second) after) (offset : Nat)
    (open_ : (AttributePhase.run .tagName offset first).2 ≠ .done ∧
      ∀ attr mark start chars,
        (AttributePhase.run .tagName offset first).2 ≠ .quoted attr mark start chars) :
    (∃ last, TagInterior.advance? (.plain false) first = some last) ∧ (second = [] → after = []) := by
  rcases tag.ended with ⟨last,passed,rfl⟩ | ⟨body,last,whole,passed,ends⟩
  · rw [TagInterior.advance?_append] at passed
    obtain ⟨middle,reached,_⟩ := Option.bind_eq_some_iff.mp passed
    exact ⟨⟨middle,reached⟩,fun _ => rfl⟩
  · rcases List.eq_nil_or_concat second with rfl | ⟨front,final,rfl⟩
    · rw [List.append_nil] at whole
      subst whole
      rcases AttributePhase.run_bracket .tagName offset body trivial with done | ⟨attr,mark,start,chars,quoted⟩
      · exact absurd done open_.1
      · exact absurd quoted (open_.2 attr mark start chars)
    · rw [List.concat_eq_append,← List.append_assoc] at whole
      obtain ⟨rfl,_⟩ := List.append_inj' whole rfl
      rw [TagInterior.advance?_append] at passed
      obtain ⟨middle,reached,_⟩ := Option.bind_eq_some_iff.mp passed
      exact ⟨⟨middle,reached⟩,by simp⟩

end Markup

namespace Fix

/-- A fix whose names can be written is made on the element in whose opening tag the anchor stands. -/
theorem plan_inside (fix : Fix) (text : List Char) (node : Node) (member : node ∈ outlineNodes text)
    (anchor : Nat) (starts : node.start ≤ anchor) (stops : anchor < node.openStop)
    (valid : fix.invalidName? = none) :
    ∃ parent, fix.plan text anchor Filter.keep = fix.planOn text ⟨node,parent⟩ := by
  obtain ⟨i,found⟩ := List.mem_iff_getElem?.mp member
  have spans := (outlineNodes_forest text).spans i node found
  unfold Node.Spans at spans
  obtain ⟨parent,located⟩ := FixTarget.locate?_inside text node member anchor starts stops
  exact ⟨parent,by rw [plan,if_neg (by omega),valid,Filter.apply_toMarkupFilter,Filter.apply_keep,located]⟩

theorem plan_addAttribute (text : List Char) (node : Node) (member : node ∈ outlineNodes text)
    (name value : String) (valid : isAttributeName name = true) :
    (addAttribute name value).plan text node.start Filter.keep =
      .ok (if hasAttribute (writtenAttributes text node) name then .skipped .alreadySatisfied
        else .applied (insertAttribute node (writtenAttributes text node) name value)) := by
  obtain ⟨i,found⟩ := List.mem_iff_getElem?.mp member
  have spans := (outlineNodes_forest text).spans i node found
  unfold Node.Spans at spans
  obtain ⟨parent,planned⟩ := plan_inside (addAttribute name value) text node member node.start le_rfl (by omega)
    (by simp [invalidName?,valid])
  rw [planned]
  simp only [planOn]
  split_ifs <;> rfl

theorem writeAttribute_parts (name value : String) :
    ∃ suffix, writeAttribute name value = name.toList ++ suffix ∧
      (suffix = [] ∨ suffix.head? = some '=') := by
  unfold writeAttribute writeWithValue
  split_ifs
  · exact ⟨[],by simp,Or.inl rfl⟩
  · exact ⟨_,rfl,Or.inr rfl⟩

theorem isAttributeName_no_bracket {name : String} (valid : isAttributeName name = true) :
    '>' ∉ ' ' :: name.toList := by
  intro member
  rcases List.mem_cons.mp member with same | inside
  · contradiction
  · exact absurd ((continues_of_isAttributeName valid).2 _ inside).1 (by decide)

theorem plan_addAttribute_skipped_iff (before name inner after : List Char) (ready : Ready before)
    (tag : OpeningTag name inner after) (attr value : String) (valid : isAttributeName attr = true) :
    (addAttribute attr value).plan (before ++ '<' :: (name ++ (inner ++ after))) (byteLength before) Filter.keep =
        .ok (.skipped .alreadySatisfied) ↔
      hasAttribute (readAttributesFrom .tagName (byteLength before + 1 + byteLength name) inner) attr =
        true := by
  obtain ⟨node,member,written⟩ := exists_node_writtenIn before name inner after ready tag
  have planned := plan_addAttribute _ node member attr value valid
  rw [written.writtenAttributes_eq,written.nameStop_eq,← written.start] at planned
  rw [planned]
  split_ifs with present
  · simp [present]
  · simp [present]

/-- Adding an attribute at the anchor is idempotent: once one has been added, there is nothing to do
any more. -/
def AddsOnce (text : List Char) (anchor : Nat) : Prop :=
  ∀ (name value : String) (edit : Edit), isAttributeName name = true →
    (addAttribute name value).plan text anchor Filter.keep = .ok (.applied edit) →
    ∃ next, edit.apply text = .ok next ∧
      (addAttribute name value).plan next anchor Filter.keep = .ok (.skipped .alreadySatisfied)

section Insertion

variable {text before name first second after : List Char} {node : Node}

theorem apply_inside (written : node.WrittenIn text before name (first ++ second) after)
    (added : List Char) :
    (Edit.insertion (nameStop node + byteLength first) added).apply text =
      .ok (before ++ '<' :: (name ++ (first ++ added ++ (second ++ after)))) := by
  have place : nameStop node + byteLength first = byteLength (before ++ '<' :: (name ++ first)) := by
    rw [written.nameStop_eq,← written.start]
    simp only [byteLength_append,byteLength_cons]
    have : ('<').utf8Size = 1 := rfl
    omega
  have parts : text = (before ++ '<' :: (name ++ first)) ++ (second ++ after) := by
    rw [written.parts]
    simp
  rw [place]
  conv => lhs; rw [parts]
  rw [Edit.apply_insertion]
  simp

/-- How the tag is read with a new attribute in it, at a place where the tag goes on. The text from
there is split after some characters that cannot end the tag. -/
theorem plan_again_iff (written : node.WrittenIn text before name (first ++ second) after)
    (goesOn : ∃ last, TagInterior.advance? (.plain false) first = some last)
    (attr value : String) (valid : isAttributeName attr = true) (added rest : List Char)
    (blank : added.head? = some ' ') (inside : '>' ∉ added)
    (parts : ' ' :: writeAttribute attr value ++ (second ++ after) = added ++ rest) :
    ∃ more following, rest = more ++ following ∧
      ((addAttribute attr value).plan
          (before ++ '<' :: (name ++ (first ++ (' ' :: writeAttribute attr value) ++ (second ++ after))))
          node.start Filter.keep = .ok (.skipped .alreadySatisfied) ↔
        hasAttribute (readAttributesFrom .tagName (nameStop node) (first ++ (added ++ more))) attr =
          true) := by
  obtain ⟨middle,reached⟩ := goesOn
  obtain ⟨last,passed⟩ := middle.advance?_of_not_mem added inside
  have through : TagInterior.advance? (.plain false) (first ++ added) = some last := by
    rw [TagInterior.advance?_append,reached,Option.bind_some,passed]
  have named : ∀ c, (first ++ added ++ rest).head? = some c → isNameChar c = false := by
    intro c head
    cases first with
    | nil =>
      rw [List.nil_append,List.head?_append,blank] at head
      obtain rfl := Option.some.inj head
      decide
    | cons d first => exact written.tag.named c head
  obtain ⟨inner,following,same,changed⟩ :=
    OpeningTag.exists_inner name _ written.tag.letter written.tag.written named
  obtain ⟨more,rfl,split⟩ := changed.passes _ _ last same through
  refine ⟨more,following,split,?_⟩
  have whole : first ++ (' ' :: writeAttribute attr value) ++ (second ++ after) =
      first ++ added ++ more ++ following := by
    rw [← same,List.append_assoc,parts,List.append_assoc]
  rw [whole,← written.start,plan_addAttribute_skipped_iff _ _ _ _ written.ready changed _ _ valid,
    written.nameStop_eq,← written.start,List.append_assoc]

theorem plan_again_separated (written : node.WrittenIn text before name (first ++ second) after)
    (separated : (AttributePhase.run .tagName (nameStop node) first).2.separates = true)
    (ended : ∀ c, second.head? = some c → endsName c = true ∨ c = '=')
    (attr value : String) (valid : isAttributeName attr = true) :
    (addAttribute attr value).plan
      (before ++ '<' :: (name ++ (first ++ (' ' :: writeAttribute attr value) ++ (second ++ after))))
      node.start Filter.keep = .ok (.skipped .alreadySatisfied) := by
  obtain ⟨goesOn,last⟩ := written.tag.goes_on (nameStop node)
    ⟨fun done => by simp [done,AttributePhase.separates] at separated,
      fun _ _ _ _ quoted => by simp [quoted,AttributePhase.separates] at separated⟩
  obtain ⟨suffix,writing,bare⟩ := writeAttribute_parts attr value
  obtain ⟨more,following,split,again⟩ := plan_again_iff written goesOn attr value valid
    (' ' :: attr.toList) (suffix ++ (second ++ after)) rfl (isAttributeName_no_bracket valid)
    (by rw [writing]; simp)
  have stops : ∀ c, more.head? = some c → endsName c = true ∨ c = '=' := by
    intro c head
    have whole : (suffix ++ (second ++ after)).head? = some c := by
      rw [split,List.head?_append,head]
      rfl
    rcases bare with rfl | equals
    · cases second with
      | nil => simp [last rfl] at whole
      | cons d rest => exact ended c whole
    · rw [List.head?_append,equals] at whole
      exact Or.inr (Option.some.inj whole).symm
  rw [again,hasAttribute_iff,readAttributesFrom_append,readAttributesFrom_append,
    AttributePhase.run_blank_name _ separated _ _ valid]
  obtain ⟨found,member,same⟩ := AttributePhase.naming_read _ _ attr.toList.reverse more stops
  refine ⟨found,List.mem_append_right _ (List.mem_append_right _ member),?_⟩
  rw [same,List.reverse_reverse,String.ofList_toList,sameIgnoringCase,beq_self_eq_true]

theorem plan_again_dangling (written : node.WrittenIn text before name (first ++ second) after)
    (earlier : List Attribute) (last : Attribute) (owner : WrittenName)
    (read : writtenAttributes text node = earlier ++ [last])
    (reached : AttributePhase.run .tagName (nameStop node) first = (earlier,.afterEquals owner))
    (named : last.name = owner.name) (ended : ∀ c, second.head? = some c → c = '>')
    (attr : String) (valid : isAttributeName attr = true)
    (absent : hasAttribute (writtenAttributes text node) attr = false) :
    (addAttribute attr "").plan
      (before ++ '<' :: (name ++ (first ++ (' ' :: writeAttribute attr "") ++ (second ++ after))))
      node.start Filter.keep ≠ .ok (.skipped .alreadySatisfied) := by
  obtain ⟨goesOn,nothing⟩ := written.tag.goes_on (nameStop node) (by simp [reached])
  obtain ⟨more,following,split,again⟩ := plan_again_iff written goesOn attr "" valid
    (' ' :: attr.toList) (second ++ after) rfl (isAttributeName_no_bracket valid) rfl
  have stops : ∀ c, more.head? = some c → c = '>' := by
    intro c head
    have whole : (second ++ after).head? = some c := by
      rw [split,List.head?_append,head]
      rfl
    cases second with
    | nil => simp [nothing rfl] at whole
    | cons d rest => exact ended c whole
  have names := AttributePhase.unquoted_read owner (nameStop node + byteLength first + 1)
    (nameStop node + byteLength first + byteLength (' ' :: attr.toList)) attr.toList.reverse more stops
  have same : hasAttribute (readAttributesFrom .tagName (nameStop node)
      (first ++ (' ' :: attr.toList ++ more))) attr = hasAttribute (writtenAttributes text node) attr := by
    apply hasAttribute_of_names
    rw [read,readAttributesFrom_append,reached,readAttributesFrom_append,
      AttributePhase.run_dangling_name _ _ _ valid]
    simp only [List.map_append,List.map_cons,List.map_nil,List.nil_append,names,named]
  rw [ne_eq,again,same,absent]
  simp

theorem plan_again_unclosed (written : node.WrittenIn text before name first after)
    (earlier : List Attribute) (last : Attribute) (owner : WrittenName) (mark : Char) (start : Nat)
    (chars : List Char) (read : writtenAttributes text node = earlier ++ [last])
    (reached : AttributePhase.run .tagName (nameStop node) first =
      (earlier,.quoted owner mark start chars))
    (named : last.name = owner.name) (quote : mark = '"' ∨ mark = '\'') (attr : String)
    (valid : isAttributeName attr = true)
    (absent : hasAttribute (writtenAttributes text node) attr = false) :
    (addAttribute attr "").plan
      (before ++ '<' :: (name ++ (first ++ (' ' :: writeAttribute attr "") ++ after)))
      node.start Filter.keep ≠ .ok (.skipped .alreadySatisfied) := by
  rcases written.tag.ended with ⟨last,passed,rfl⟩ | ⟨body,last,rfl,passed,ends⟩
  · have open_ : node.WrittenIn text before name (first ++ []) [] := by simpa using written
    obtain ⟨more,following,split,again⟩ := plan_again_iff open_ ⟨last,passed⟩ attr "" valid
      (' ' :: attr.toList) [] rfl (isAttributeName_no_bracket valid) rfl
    obtain ⟨rfl,rfl⟩ := List.append_eq_nil_iff.mp split.symm
    have same : hasAttribute (readAttributesFrom .tagName (nameStop node)
        (first ++ (' ' :: attr.toList ++ []))) attr = hasAttribute (writtenAttributes text node) attr := by
      apply hasAttribute_of_names
      rw [read,readAttributesFrom_append,reached,readAttributesFrom_append,
        AttributePhase.run_unclosed_name _ _ _ _ _ quote _ valid]
      simp [readAttributesFrom,AttributePhase.finish,WrittenName.withValue,named]
    rw [List.append_nil,List.append_nil] at again
    rw [List.append_nil,ne_eq,again,same,absent]
    simp
  · have unchanged : OpeningTag name (body ++ ['>']) (' ' :: writeAttribute attr "" ++ after) := by
      refine ⟨written.tag.letter,written.tag.written,?_,Or.inr ⟨body,last,rfl,passed,ends⟩⟩
      intro c head
      have original := written.tag.named c
      cases body with
      | nil => exact original head
      | cons d body => exact original head
    rw [List.append_assoc,← written.start,ne_eq,
      plan_addAttribute_skipped_iff _ _ _ _ written.ready unchanged _ _ valid,written.start,
      ← written.nameStop_eq,← written.writtenAttributes_eq,absent]
    simp

theorem plan_again_blocked (written : node.WrittenIn text before name second after)
    (c : Char) (rest : List Char) (follows : second = c :: rest) (joins : endsName c = false)
    (other : c ≠ '=') (attr : String) (valid : isAttributeName attr = true)
    (long : text.length < attr.length) :
    (addAttribute attr "").plan
      (before ++ '<' :: (name ++ (' ' :: writeAttribute attr "" ++ (second ++ after))))
      node.start Filter.keep ≠ .ok (.skipped .alreadySatisfied) := by
  subst follows
  have started : node.WrittenIn text before name ([] ++ c :: rest) after := written
  have inside : '>' ∉ ' ' :: attr.toList ++ [c] := by
    rw [List.mem_append,not_or]
    refine ⟨isAttributeName_no_bracket valid,?_⟩
    rw [List.mem_singleton]
    rintro rfl
    exact absurd joins (by decide)
  obtain ⟨more,following,split,again⟩ := plan_again_iff started ⟨_,rfl⟩ attr "" valid
    (' ' :: attr.toList ++ [c]) (rest ++ after) rfl inside (by simp [writeAttribute])
  have short : more.length < text.length := by
    have size := congrArg List.length split
    rw [written.parts]
    simp only [List.length_append,List.length_cons] at size ⊢
    omega
  have reached : AttributePhase.run .tagName (nameStop node) (' ' :: attr.toList ++ [c]) =
      ([],.naming (nameStop node + 1) (c :: attr.toList.reverse)) := by
    have blank : AttributePhase.step .tagName (nameStop node) ' ' = (.gap,none) := rfl
    rw [AttributePhase.run_append,AttributePhase.run_cons,blank,
      show nameStop node + (' ').utf8Size = nameStop node + 1 from rfl,
      AttributePhase.run_gap_name _ _ valid,AttributePhase.run_naming _ _ _ _ (by simp [joins,other])]
    rfl
  rw [List.nil_append,List.nil_append,hasAttribute_iff,readAttributesFrom_append,reached] at again
  rw [ne_eq,again]
  rintro ⟨found,member,same⟩
  have size := length_of_sameIgnoringCase _ _ same
  rcases AttributePhase.read_nameSize _ _ _ found member with few | ⟨least,sized,bound,_⟩
  · omega
  · simp only [AttributePhase.nameSize?,List.length_cons,List.length_reverse,String.length_toList,
      Option.some.injEq] at sized
    omega

theorem added_twice_iff (member : node ∈ outlineNodes text)
    (written : node.WrittenIn text before name (first ++ second) after) (attr value : String)
    (valid : isAttributeName attr = true)
    (place : insertAttribute node (writtenAttributes text node) attr value =
      Edit.insertion (nameStop node + byteLength first) (' ' :: writeAttribute attr value)) :
    (∀ edit, (addAttribute attr value).plan text node.start Filter.keep = .ok (.applied edit) →
      ∃ next, edit.apply text = .ok next ∧
        (addAttribute attr value).plan next node.start Filter.keep = .ok (.skipped .alreadySatisfied)) ↔
    (hasAttribute (writtenAttributes text node) attr = false →
      (addAttribute attr value).plan
        (before ++ '<' :: (name ++ (first ++ (' ' :: writeAttribute attr value) ++ (second ++ after))))
        node.start Filter.keep = .ok (.skipped .alreadySatisfied)) := by
  have applied := apply_inside written (' ' :: writeAttribute attr value)
  rw [plan_addAttribute text node member attr value valid,place]
  constructor
  · intro twice absent
    rw [absent] at twice
    obtain ⟨next,changed,again⟩ := twice _ rfl
    rw [applied] at changed
    rwa [← Except.ok.inj changed] at again
  · intro again edit planned
    split_ifs at planned with present
    · simp at planned
    · obtain rfl := FixOutcome.applied.inj (Except.ok.inj planned)
      exact ⟨_,applied,again (by simpa using present)⟩

theorem exists_long_name (count : Nat) : ∃ attr, isAttributeName attr = true ∧ count < attr.length := by
  refine ⟨String.ofList (List.replicate (count + 1) 'x'),?_,by simp⟩
  have writable : endsAttributeName 'x' = false := by decide
  simp only [isAttributeName,String.toList_ofList,Bool.and_eq_true,bne_iff_ne,ne_eq,List.all_eq_true]
  refine ⟨by simp [List.replicate_succ],fun c member => ?_⟩
  rw [List.eq_of_mem_replicate member,writable]
  rfl

theorem hasAttribute_of_long (written : node.WrittenIn text before name first after) (attr : String)
    (long : text.length < attr.length) : hasAttribute (writtenAttributes text node) attr = false := by
  rw [Bool.eq_false_iff,ne_eq,hasAttribute_iff,written.writtenAttributes_eq]
  rintro ⟨found,member,same⟩
  have size := length_of_sameIgnoringCase _ _ same
  have whole := congrArg List.length written.parts
  simp only [List.length_append,List.length_cons] at whole
  rcases AttributePhase.read_nameSize _ _ _ found member with few | ⟨_,sized,_⟩
  · omega
  · contradiction

theorem addsOnce_separated (member : node ∈ outlineNodes text)
    (written : node.WrittenIn text before name (first ++ second) after)
    (place : ∀ attr value, insertAttribute node (writtenAttributes text node) attr value =
      Edit.insertion (nameStop node + byteLength first) (' ' :: writeAttribute attr value))
    (separated : (AttributePhase.run .tagName (nameStop node) first).2.separates = true)
    (ended : ∀ c, second.head? = some c → endsName c = true ∨ c = '=') :
    AddsOnce text node.start := by
  intro attr value edit valid
  refine (added_twice_iff member written attr value valid (place attr value)).mpr (fun _ => ?_) edit
  exact plan_again_separated written separated ended attr value valid

theorem not_addsOnce (member : node ∈ outlineNodes text)
    (written : node.WrittenIn text before name (first ++ second) after)
    (place : ∀ attr value, insertAttribute node (writtenAttributes text node) attr value =
      Edit.insertion (nameStop node + byteLength first) (' ' :: writeAttribute attr value))
    (lost : ∀ attr, isAttributeName attr = true → text.length < attr.length →
      hasAttribute (writtenAttributes text node) attr = false →
      (addAttribute attr "").plan
        (before ++ '<' :: (name ++ (first ++ (' ' :: writeAttribute attr "") ++ (second ++ after))))
        node.start Filter.keep ≠ .ok (.skipped .alreadySatisfied)) :
    ¬ AddsOnce text node.start := by
  intro once
  obtain ⟨attr,valid,long⟩ := exists_long_name text.length
  have absent := hasAttribute_of_long written attr long
  have again := (added_twice_iff member written attr "" valid (place attr "")).mp
    (fun edit => once attr "" edit valid) absent
  exact lost attr valid long absent again

end Insertion

end Fix

namespace Markup

/-- Whether an attribute that is added to the tag is read as one: the last attribute is complete, or
there is none and what follows the tag name would not become part of a name before it. -/
def Element.takesAttributes (text : List Char) (element : Element) : Bool :=
  match element.attributes.getLast? with
  | some last => last.isComplete
  | none => ((slice? text (Fix.nameStop element.toNode) element.openStop).getD []).head?.all fun c =>
      endsName c || c = '='

theorem Node.WrittenIn.slice_inner {text before name inner after : List Char} {node : Node}
    (written : node.WrittenIn text before name inner after) :
    slice? text (Fix.nameStop node) node.openStop = some inner := by
  have found := slice?_append (before ++ '<' :: name) inner after
  have start : byteLength (before ++ '<' :: name) = Fix.nameStop node := by
    rw [written.nameStop_eq,← written.start]
    simp only [byteLength_append,byteLength_cons]
    have : ('<').utf8Size = 1 := rfl
    omega
  rw [start,written.nameStop_eq,← written.openStop,← written.nameStop_eq] at found
  rw [← found,written.parts]
  simp

end Markup

theorem addsOnce_iff_of_none (text : List Char) (node : Node) (member : node ∈ outlineNodes text)
    (none : Fix.writtenAttributes text node = []) :
    Fix.AddsOnce text node.start ↔ (Element.ofNode text node).takesAttributes text = true := by
  obtain ⟨before,name,inner,after,written⟩ := Node.exists_writtenIn text node member
  have started : node.WrittenIn text before name ([] ++ inner) after := written
  have attributes : (Element.ofNode text node).attributes = [] := none
  have slice : slice? text (Fix.nameStop (Element.ofNode text node).toNode)
      (Element.ofNode text node).openStop = some inner := written.slice_inner
  have place (attr value : String) :
      Fix.insertAttribute node (Fix.writtenAttributes text node) attr value =
        Edit.insertion (Fix.nameStop node + byteLength []) (' ' :: Fix.writeAttribute attr value) := by
    simp [Fix.insertAttribute,none]
  rw [Element.takesAttributes,attributes,slice]
  change _ ↔ (inner.head?.all fun c => endsName c || c = '=') = true
  rw [Option.all_eq_true]
  constructor
  · intro once c head
    obtain ⟨rest,follows⟩ := List.head?_eq_some_iff.mp head
    rw [Bool.or_eq_true,decide_eq_true_eq]
    refine Decidable.byContradiction fun joins => ?_
    rw [not_or,Bool.not_eq_true] at joins
    refine Fix.not_addsOnce member started place (fun attr valid long _ => ?_) once
    exact Fix.plan_again_blocked written c rest follows joins.1 joins.2 attr valid long
  · intro ends
    refine Fix.addsOnce_separated member started place rfl fun c head => ?_
    simpa using ends c head

theorem addsOnce_iff_of_last (text : List Char) (node : Node) (member : node ∈ outlineNodes text)
    (earlier : List Attribute) (last : Attribute)
    (read : Fix.writtenAttributes text node = earlier ++ [last]) :
    Fix.AddsOnce text node.start ↔ (Element.ofNode text node).takesAttributes text = true := by
  obtain ⟨before,name,inner,after,written⟩ := Node.exists_writtenIn text node member
  have takes : (Element.ofNode text node).takesAttributes text = last.isComplete := by
    have attributes : (Element.ofNode text node).attributes = earlier ++ [last] := read
    simp [Element.takesAttributes,attributes]
  have reading := read
  rw [written.writtenAttributes_eq] at reading
  rcases lastRead .tagName trivial _ inner earlier last reading with
    ⟨_,impossible,_⟩ | ⟨first,second,rfl,stop,stands⟩
  · contradiction
  have place (attr value : String) :
      Fix.insertAttribute node (Fix.writtenAttributes text node) attr value =
        Edit.insertion (Fix.nameStop node + byteLength first) (' ' :: Fix.writeAttribute attr value) := by
    simp [Fix.insertAttribute,read,stop]
  have separated := Fix.addsOnce_separated member written place
  rcases reached : AttributePhase.run .tagName (Fix.nameStop node) first with ⟨given,phase⟩
  rw [reached] at stands separated
  rw [takes]
  cases stands with
  | bare start chars _ complete ended =>
    exact iff_of_true (separated rfl fun c head => Or.inl (ended c head)) complete
  | unquoted name start chars _ complete ended =>
    exact iff_of_true (separated rfl fun c head => Or.inl (ended c head)) complete
  | closed _ complete ended => exact iff_of_true (separated rfl ended) complete
  | dangling owner _ incomplete named ended =>
    refine iff_of_false (Fix.not_addsOnce member written place fun attr valid _ absent => ?_)
      (by simp [incomplete])
    exact Fix.plan_again_dangling written _ last owner read reached named ended attr valid absent
  | unclosed owner mark start chars incomplete named quote =>
    refine iff_of_false (Fix.not_addsOnce member written place fun attr valid _ absent => ?_)
      (by simp [incomplete])
    rw [List.append_nil] at written
    exact Fix.plan_again_unclosed written _ last owner mark start chars read reached named quote attr
      valid absent

/-- Adding an attribute is idempotent at an element, for every name and value, exactly when the tag of
the element takes attributes. -/
theorem addAttribute_idempotent_iff (text : List Char) (element : Element)
    (member : element ∈ elements text) :
    Fix.AddsOnce text element.start ↔ element.takesAttributes text = true := by
  obtain ⟨node,found,rfl⟩ := List.mem_map.mp member
  rcases List.eq_nil_or_concat (Fix.writtenAttributes text node) with none | ⟨earlier,last,read⟩
  · exact addsOnce_iff_of_none text node found none
  · rw [List.concat_eq_append] at read
    exact addsOnce_iff_of_last text node found earlier last read

theorem addsOnce_div : Fix.AddsOnce "<div a>".toList 0 ∧ ¬ Fix.AddsOnce "<div a=>".toList 0 := by
  have named : ∃ element ∈ elements "<div a>".toList, element.start = 0 ∧
      element.takesAttributes "<div a>".toList = true := by decide +kernel
  have dangling : ∃ element ∈ elements "<div a=>".toList, element.start = 0 ∧
      ¬ element.takesAttributes "<div a=>".toList = true := by decide +kernel
  constructor
  · obtain ⟨element,member,start,takes⟩ := named
    rw [← start]
    exact (addAttribute_idempotent_iff _ element member).mpr takes
  · obtain ⟨element,member,start,refuses⟩ := dangling
    intro once
    rw [← start] at once
    exact refuses ((addAttribute_idempotent_iff _ element member).mp once)

end AccessibleMarkup
