import AccessibleMarkup.Proofs.AttributeEffects
import AccessibleMarkup.Proofs.TagEditFrame

/-! Documents with a regular tag before and after a fix of one of its attributes. The tag that is written again
is the only one that changes; every other element keeps its name, its attributes and its place in the
structure. -/
namespace AccessibleMarkup

open Text Markup

namespace Markup

namespace AttributePhase

def unplaced : AttributePhase → AttributePhase
  | .naming _ chars => .naming 0 chars
  | .afterName name => .afterName ⟨name.name,⟨0,0⟩⟩
  | .afterEquals name => .afterEquals ⟨name.name,⟨0,0⟩⟩
  | .unquoted name _ chars => .unquoted ⟨name.name,⟨0,0⟩⟩ 0 chars
  | .quoted name mark _ chars => .quoted ⟨name.name,⟨0,0⟩⟩ mark 0 chars
  | phase => phase

theorem unplaced_readGap (first second : Nat) (c : Char) :
    (readGap first c).unplaced = (readGap second c).unplaced := by
  unfold readGap
  split_ifs <;> rfl

theorem unplaced_readTagName (first second : Nat) (c : Char) :
    (readTagName first c).unplaced = (readTagName second c).unplaced := by
  unfold readTagName
  split_ifs
  · exact unplaced_readGap first second c
  · rfl

theorem unplaced_step (phase : AttributePhase) (first second : Nat) (c : Char) :
    (phase.unplaced.step first c).1.unplaced = (phase.step second c).1.unplaced ∧
      (phase.unplaced.step first c).2.map Attribute.content = (phase.step second c).2.map Attribute.content := by
  have gap := unplaced_readGap first second c
  cases phase with
  | done => exact ⟨rfl,rfl⟩
  | gap => exact ⟨gap,rfl⟩
  | tagName => exact ⟨unplaced_readTagName first second c,rfl⟩
  | outside =>
    refine ⟨?_,rfl⟩
    simp only [unplaced,step]
    split_ifs
    · rfl
    · exact unplaced_readTagName first second c
  | _ =>
    simp only [unplaced,step]
    split_ifs <;> first | exact ⟨rfl,rfl⟩ | exact ⟨gap,rfl⟩

theorem unplaced_finish (phase : AttributePhase) (first second : Nat) :
    (phase.unplaced.finish first).map Attribute.content = (phase.finish second).map Attribute.content := by
  cases phase <;> rfl

theorem map_content_read (phase other : AttributePhase) (same : phase.unplaced = other.unplaced)
    (first second : Nat) (text : List Char) :
    (readAttributesFrom phase first text).map Attribute.content =
      (readAttributesFrom other second text).map Attribute.content := by
  induction text generalizing phase other first second with
  | nil =>
    have finished := phase.unplaced_finish first first
    rw [same,other.unplaced_finish first second] at finished
    simp only [readAttributesFrom,← Option.toList_map,finished]
  | cons c rest ih =>
    obtain ⟨next,given⟩ := phase.unplaced_step first first c
    obtain ⟨otherNext,otherGiven⟩ := other.unplaced_step first second c
    rw [same] at next given
    rw [readAttributesFrom_cons,readAttributesFrom_cons,List.map_append,List.map_append,
      ih _ _ (next.symm.trans otherNext),← Option.toList_map,← Option.toList_map,← given,← otherGiven]

end AttributePhase

/-- What an element is, wherever it stands in its text. -/
structure Element.Profile where
  name : String
  attributes : List Attribute.Content
  extent : Extent
  parent : Option Nat
  depth : Nat
  detached : Bool
  deriving DecidableEq, Repr

def Element.profile (element : Element) : Element.Profile :=
  ⟨element.name,element.attributes.map Attribute.content,element.extent,element.parent,element.depth,
    element.detached⟩

theorem Element.profile_shift {text result : List Char} (move : Nat → Nat) (node : Node)
    (same : slice? result (move node.start) (move node.openStop) = slice? text node.start node.openStop) :
    (Element.ofNode result (node.shift move)).profile = (Element.ofNode text node).profile := by
  have attributes : (Element.ofNode result (node.shift move)).attributes.map Attribute.content =
      (Element.ofNode text node).attributes.map Attribute.content := by
    simp only [ofNode,Node.shift,same]
    cases slice? text node.start node.openStop with
    | none => rfl
    | some tag => exact AttributePhase.map_content_read _ _ rfl _ _ _
  rw [profile,attributes]
  rfl

/-- The opening tag of the element is written as the regular tag. -/
def Node.TagIs (text : List Char) (node : Node) (tag : RegularTag) : Prop :=
  slice? text node.start node.openStop = some tag.render

def RegularMarkup (text : List Char) : Prop := ∀ node ∈ outlineNodes text, ∃ tag, node.TagIs text tag

/-- What a tag is, wherever it stands in its text. -/
def Tag.sign (tag : Tag) : TagKind × String × Bool := (tag.kind,tag.name,tag.terminated)

namespace Node

variable {text before after : List Char} {node : Node} {tag : RegularTag}

theorem TagIs.exists_writtenIn (member : node ∈ outlineNodes text) (regular : node.TagIs text tag) :
    ∃ before after, node.WrittenIn text before tag.name tag.inner after := by
  obtain ⟨before,name,inner,after,written⟩ := Node.exists_writtenIn text node member
  have sliced := written.slice_tag
  rw [TagIs] at regular
  rw [regular,RegularTag.render,Option.some.injEq,List.cons.injEq] at sliced
  have names : tag.name = name := by
    rw [← takeWhile_name tag.name tag.inner tag.written ((tagEnding?_eq_some_iff _ _).mp tag.tagEnding).1,sliced.2,
      takeWhile_name name inner written.tag.written fun c head => written.tag.named c ?_]
    rw [List.head?_append,head]
    rfl
  rw [← names] at sliced written
  rw [List.append_cancel_left sliced.2]
  exact ⟨before,after,written⟩

theorem attributes_regular (written : node.WrittenIn text before tag.name tag.inner after) :
    (Element.ofNode text node).attributes.map Attribute.content =
      tag.attributes.map RegularAttribute.content := by
  have read : (Element.ofNode text node).attributes = Fix.writtenAttributes text node := rfl
  rw [read,Fix.writtenAttributes_regular written,RegularAttribute.placeAll_content]

/-- Two elements of a text are the same or the tag of one ends before the other starts. -/
theorem eq_or_apart {first second : Node} (one : first ∈ outlineNodes text) (two : second ∈ outlineNodes text) :
    first = second ∨ first.openStop ≤ second.start ∨ second.openStop ≤ first.start := by
  obtain ⟨i,found⟩ := List.mem_iff_getElem?.mp one
  obtain ⟨j,other⟩ := List.mem_iff_getElem?.mp two
  have forest := outlineNodes_forest text
  rcases Nat.lt_trichotomy i j with less | rfl | more
  · exact Or.inr (Or.inl (forest.openStop_le i j first second found other less))
  · exact Or.inl (Option.some.inj (found.symm.trans other))
  · exact Or.inr (Or.inr (forest.openStop_le j i second first other found more))

theorem eq_of_start {first second : Node} (one : first ∈ outlineNodes text) (two : second ∈ outlineNodes text)
    (same : first.start = second.start) : first = second := by
  have forest := outlineNodes_forest text
  have own := (forest.spans _ _ (List.getElem?_of_mem one).choose_spec).1
  have other := (forest.spans _ _ (List.getElem?_of_mem two).choose_spec).1
  rcases eq_or_apart one two with same | apart | apart
  · exact same
  all_goals omega

end Node

namespace Node.WrittenIn

theorem slice_moves {text before name inner after : List Char} {node : Node}
    (written : node.WrittenIn text before name inner after) (changed : List Char) (first last : Nat)
    (ordered : first ≤ last) (apart : last ≤ node.start ∨ node.openStop ≤ first) :
    slice? (before ++ '<' :: (name ++ (changed ++ after)))
        (node.move (node.start + 1 + byteLength name + byteLength changed) first)
        (node.move (node.start + 1 + byteLength name + byteLength changed) last) =
      slice? text first last := by
  have start := written.start
  have openStop := written.openStop
  rcases apart with ahead | behind
  · rw [node.move_before _ first (by omega),node.move_before _ last (by omega),written.parts,
      slice?_append_of_le _ _ _ _ (by omega),slice?_append_of_le _ _ _ _ (by omega)]
  · obtain ⟨i,rfl⟩ := Nat.exists_eq_add_of_le behind
    obtain ⟨j,rfl⟩ := Nat.exists_eq_add_of_le (behind.trans ordered)
    have old : text = (before ++ '<' :: (name ++ inner)) ++ after := by
      rw [written.parts]
      simp
    have new : before ++ '<' :: (name ++ (changed ++ after)) = (before ++ '<' :: (name ++ changed)) ++ after := by
      simp
    have stop : node.openStop = byteLength (before ++ '<' :: (name ++ inner)) := by
      grind
    have moved : node.start + 1 + byteLength name + byteLength changed =
        byteLength (before ++ '<' :: (name ++ changed)) := by
      grind
    rw [node.move_after,node.move_after,old,new,stop,moved,slice?_append_add,slice?_append_add]

variable {text before after : List Char} {node : Node} {tag other : RegularTag}

theorem rewrite_parts (name : other.name = tag.name) (before after : List Char) :
    before ++ (other.render ++ after) = before ++ '<' :: (tag.name ++ (other.inner ++ after)) := by
  simp [RegularTag.render,name]

theorem outlineNodes_rewrite (written : node.WrittenIn text before tag.name tag.inner after)
    (name : other.name = tag.name) (slash : other.slash = tag.slash) :
    outlineNodes (before ++ (other.render ++ after)) = (outlineNodes text).map
      (·.shift (node.move (node.start + 1 + byteLength tag.name + byteLength other.inner))) := by
  rw [rewrite_parts name,written.outline_moves other.inner tag.slash tag.tagEnding
    (by rw [← slash]; exact other.tagEnding)]

theorem rewrite_tag (written : node.WrittenIn text before tag.name tag.inner after)
    (name : other.name = tag.name) :
    (node.shift (node.move (node.start + 1 + byteLength tag.name + byteLength other.inner))).WrittenIn
      (before ++ (other.render ++ after)) before other.name other.inner after := by
  have start := node.move_before (node.start + 1 + byteLength tag.name + byteLength other.inner) node.start
    (by rw [written.openStop]; omega)
  have openStop := node.move_after (node.start + 1 + byteLength tag.name + byteLength other.inner) 0
  refine ⟨by simp [RegularTag.render],written.ready,other.opens after,?_,?_,?_⟩
  · rw [shift,start,written.start]
  · rw [name]
    exact written.named
  · simpa [shift,start,name] using openStop

theorem map_profile_rewrite (written : node.WrittenIn text before tag.name tag.inner after)
    (member : node ∈ outlineNodes text) (name : other.name = tag.name) (slash : other.slash = tag.slash) :
    (elements (before ++ (other.render ++ after))).map Element.profile = (elements text).map fun element =>
      if element.start = node.start then
        { element.profile with attributes := other.attributes.map RegularAttribute.content }
      else element.profile := by
  have rewritten := written.rewrite_tag name
  rw [elements,written.outlineNodes_rewrite name slash,elements,List.map_map,List.map_map,List.map_map]
  refine List.map_congr_left fun another present => ?_
  rcases eq_or_apart present member with rfl | apart
  · have attributes := attributes_regular rewritten
    have here : (Element.ofNode text another).start = another.start := rfl
    simp only [Function.comp,Element.profile,if_pos here,attributes]
    rfl
  · have ordered := ((outlineNodes_forest text).spans _ _ (List.getElem?_of_mem present).choose_spec).1
    have own := ((outlineNodes_forest text).spans _ _ (List.getElem?_of_mem member).choose_spec).1
    have apart' : another.openStop ≤ node.start ∨ node.openStop ≤ another.start := apart
    have elsewhere : (Element.ofNode text another).start ≠ node.start := by
      change another.start ≠ node.start
      omega
    have sliced := written.slice_moves other.inner another.start another.openStop (by omega) apart'
    rw [← rewrite_parts name] at sliced
    simp only [Function.comp,if_neg elsewhere]
    exact Element.profile_shift _ another sliced

theorem regular_rewrite (written : node.WrittenIn text before tag.name tag.inner after)
    (member : node ∈ outlineNodes text) (name : other.name = tag.name) (slash : other.slash = tag.slash)
    (regular : RegularMarkup text) : RegularMarkup (before ++ (other.render ++ after)) := by
  have rewritten := written.rewrite_tag name
  intro moved present
  rw [written.outlineNodes_rewrite name slash] at present
  obtain ⟨another,found,rfl⟩ := List.mem_map.mp present
  rcases eq_or_apart found member with rfl | apart
  · exact ⟨other,rewritten.slice_tag⟩
  · obtain ⟨old,is⟩ := regular another found
    have ordered := ((outlineNodes_forest text).spans _ _ (List.getElem?_of_mem found).choose_spec).1
    have sliced := written.slice_moves other.inner another.start another.openStop (by omega) apart
    rw [← rewrite_parts name] at sliced
    exact ⟨old,sliced.trans is⟩

end Node.WrittenIn

/-- What a fix of an attribute makes of an element. -/
def Element.Profile.amend (profile : Element.Profile) (fix : Fix) : Element.Profile :=
  { profile with attributes := fix.amend profile.attributes }

end Markup

theorem Fix.valid_of_planned {fix : Fix} {text : List Char} {anchor : Nat} {filter : Filter} {outcome : FixOutcome}
    (planned : fix.plan text anchor filter = .ok outcome) : fix.invalidName? = none := by
  unfold plan at planned
  dsimp only at planned
  split at planned
  · contradiction
  · split at planned
    · contradiction
    · assumption

theorem Fix.map_profile_after {text before after : List Char} {node : Node} {tag : RegularTag}
    (written : node.WrittenIn text before tag.name tag.inner after) (member : node ∈ outlineNodes text) (fix : Fix)
    (valid : fix.invalidName? = none) :
    (elements (before ++ ((tag.after fix valid).render ++ after))).map Element.profile =
      (elements text).map fun other =>
        if other.start = node.start then other.profile.amend fix else other.profile := by
  rw [written.map_profile_rewrite member (tag.after_name fix valid) (tag.after_slash fix valid)]
  refine List.map_congr_left fun other found => ?_
  by_cases here : other.start = node.start
  · obtain ⟨second,isNode,rfl⟩ := List.mem_map.mp found
    obtain rfl := Node.eq_of_start isNode member here
    rw [if_pos here,if_pos here,Element.Profile.amend,Element.profile,Node.attributes_regular written,
      ← fix.rewrite_content valid]
    rfl
  · rw [if_neg here,if_neg here]

/-- A fix of an attribute of a regular tag changes the attributes of that tag as it is meant to. The tag keeps its
name and its end, the text around it stays as it was, all tags are found again, and every other element is
what it was before. -/
theorem attributeFix_amends_tag (fix : Fix) (kind : fix.changesAttributes = true) (text : List Char)
    (element : Element) (member : element ∈ elements text) (tag : RegularTag)
    (regular : element.toNode.TagIs text tag) (edit : Edit)
    (planned : fix.plan text element.start Filter.keep = .ok (.applied edit)) :
    ∃ before changed after,
      text = before ++ (tag.render ++ after) ∧ byteLength before = element.start ∧
      edit.apply text = .ok (before ++ (RegularTag.render changed ++ after)) ∧
      changed.attributes.map RegularAttribute.content = fix.amend (tag.attributes.map RegularAttribute.content) ∧
      changed.name = tag.name ∧ changed.slash = tag.slash ∧
      (lex (before ++ (changed.render ++ after))).map Tag.sign = (lex text).map Tag.sign ∧
      (elements (before ++ (changed.render ++ after))).map Element.profile = (elements text).map fun other =>
        if other.start = element.start then other.profile.amend fix else other.profile := by
  obtain ⟨node,present,rfl⟩ := List.mem_map.mp member
  obtain ⟨before,after,written⟩ := Node.TagIs.exists_writtenIn present regular
  have valid := Fix.valid_of_planned planned
  obtain ⟨parent,same⟩ := fix.plan_inside text node present node.start le_rfl
    (by rw [written.openStop]; omega) valid
  have made := Fix.planOn_regular written fix kind valid parent edit (same.symm.trans planned)
  have tags := written.lex_moves (tag.after fix valid).inner tag.slash tag.tagEnding (tag.after fix valid).tagEnding
  refine ⟨before,tag.after fix valid,after,?_,written.start,made,fix.rewrite_content valid tag.attributes,rfl,rfl,?_,
    Fix.map_profile_after written present fix valid⟩
  · rw [written.parts]
    simp [RegularTag.render]
  · rw [Node.WrittenIn.rewrite_parts (tag.after_name fix valid),tags,List.map_map]
    rfl

theorem attributeFix_amends_bold :
    let text := "<p><b class='a' title=x hidden>t</b>".toList
    let fix := Fix.setAttribute "Title" "say \"t\""
    ∃ edit result, fix.plan text 3 Filter.keep = .ok (.applied edit) ∧ edit.apply text = .ok result ∧
      (elements result).map Element.profile = (elements text).map fun other =>
        if other.start = 3 then other.profile.amend fix else other.profile := by
  intro text fix
  let bold : RegularTag :=
    { name := "b".toList
      attributes := [
        .spaced "class" (by decide) (.quoted .tight '\'' ['a'] (Or.inr rfl) (by simp)),
        .spaced "title" (by decide) (.unquoted .tight ['x'] (by simp) (by simp [isMarkupSpace])),
        .spaced "hidden" (by decide) .bare]
      space := []
      slash := false
      letter := ⟨'b',[],rfl,rfl⟩
      written := List.all_eq_true.mp rfl
      blank := by simp
      ended := by
        intro _ attr member _
        simp only [List.mem_cons,List.not_mem_nil,or_false] at member
        rcases member with rfl | rfl | rfl <;> exact ⟨rfl,by decide⟩ }
  have element : ∃ element ∈ elements text, element.start = 3 ∧ element.toNode.TagIs text bold := by
    unfold Node.TagIs
    decide +kernel
  obtain ⟨element,member,start,regular⟩ := element
  have planned : ∃ edit, fix.plan text element.start Filter.keep = .ok (.applied edit) := by
    rw [start]
    exact ⟨⟨⟨16,23⟩,"title=\"say &quot;t&quot;\"".toList⟩,by decide +kernel⟩
  obtain ⟨edit,planned⟩ := planned
  obtain ⟨before,changed,after,_,_,made,_,_,_,_,profiles⟩ :=
    attributeFix_amends_tag fix rfl text element member bold regular edit planned
  rw [start] at planned profiles
  exact ⟨edit,_,planned,made,profiles⟩

end AccessibleMarkup
