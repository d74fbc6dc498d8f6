import AccessibleMarkup.Proofs.AppendedText
import AccessibleMarkup.Proofs.ForestRecovery
import AccessibleMarkup.Proofs.ReferenceLookups
import AccessibleMarkup.Proofs.WellFormedReports

/-! A missing identifier that is added behind a text. It repairs the references to it, and no others: what was read
before stays where it is, and the new element refers to nothing. -/
namespace AccessibleMarkup

open Text Markup

namespace Markup

def attributesIn (text : List Char) (head : String × Nat × Nat) : List Attribute :=
  match slice? text head.2.1 head.2.2 with
  | some tag => readAttributes tag head.2.1
  | none => []

theorem map_attributes_elements (text : List Char) :
    (elements text).map (·.attributes) = ((outlineNodes text).map Node.head).map (attributesIn text) := by
  rw [elements,List.map_map,List.map_map]
  rfl

theorem map_attributes_append (first second : List Char)
    (settled : ∀ last ∈ (lex first).getLast?, last.terminated = true) :
    (elements (first ++ second)).map (·.attributes) = (elements first).map (·.attributes) ++
      ((lexFrom (phaseAfter first) (byteLength first) second).filter Tag.isOpening).map
        fun tag => attributesIn (first ++ second) tag.head := by
  have kept : (elements first).map (·.attributes) =
      ((outlineNodes first).map Node.head).map (attributesIn (first ++ second)) := by
    rw [elements,List.map_map,List.map_map]
    refine List.map_congr_left fun node member => ?_
    exact congrArg Element.attributes (Element.ofNode_append first second node member).symm
  rw [kept,map_attributes_elements,outlineNodes_heads,outlineNodes_heads,lex_append first second settled,
    List.filter_append,List.map_append,List.map_append,List.map_map,List.map_map]
  rfl

theorem LexPhase.behind_cases (tag : Tag) : behind tag = .text ∨ ∃ element, behind tag = .raw element := by
  rw [behind]
  split
  next slash _ =>
    rw [afterOpening]
    split_ifs
    · exact Or.inl rfl
    · split
      · exact Or.inr ⟨_,rfl⟩
      · exact Or.inl rfl
  next => exact Or.inl rfl

/-- Behind a text that ends with a tag the lexer is in plain text, if it is not in the text of a raw element. -/
theorem phaseAfter_text {text : List Char} {last : Tag} (found : (lex text).getLast? = some last)
    (settled : ∀ other ∈ (lex text).getLast?, other.terminated = true) (ends : last.stop = byteLength text)
    (plain : ∀ element, phaseAfter text ≠ .raw element) : phaseAfter text = .text := by
  have behind := phaseAfter_behind (lex_eq_run settled ▸ List.mem_of_getLast? found) ends
  rcases LexPhase.behind_cases last with text | ⟨element,raw⟩
  · exact behind.trans text
  · exact absurd (behind.trans raw) (plain element)

theorem map_attributes_append_tag {text : List Char} (tag : QuotedTag) (spaced : tag.IsSpaced)
    (settled : ∀ last ∈ (lex text).getLast?, last.terminated = true) (phase : phaseAfter text = .text)
    (inner : LexPhase.afterOpening tag.label tag.slash = .text) :
    (elements (text ++ (tag.render ++ tag.closing))).map (·.attributes) =
      (elements text).map (·.attributes) ++ [tag.attributesAt (byteLength text)] := by
  have closing := tag.lexFrom_closing (byteLength text + byteLength tag.render) []
  rw [List.append_nil] at closing
  have tags : (lexFrom .text (byteLength text) (tag.render ++ tag.closing)).filter Tag.isOpening =
      [tag.openingAt (byteLength text)] := by
    rw [tag.lexFrom_render,inner,closing]
    rfl
  have read : attributesIn (text ++ (tag.render ++ tag.closing)) (tag.openingAt (byteLength text)).head =
      tag.attributesAt (byteLength text) := by
    simp only [attributesIn,Tag.head,QuotedTag.openingAt,slice?_append]
    exact tag.readAttributes_render spaced _
  rw [map_attributes_append text _ settled,phase,tags,List.map_singleton,read]

end Markup

namespace ReferenceIndex

def referencesIn (source : Nat) (attributes : List Attribute) : List Reference :=
  ReferenceKind.all.flatMap fun kind =>
    match attributeValue? attributes kind.attributeName with
    | some value => (kind.targets value).map fun target => ⟨kind,source,target,isDynamic value⟩
    | none => []

theorem references_build_attributes (elements : List Element) : (build elements).references =
    (elements.map (·.attributes)).zipIdx.flatMap fun entry => referencesIn entry.2 entry.1 := by
  rw [references_build,List.zipIdx_map,List.flatMap_map]
  rfl

theorem references_concat {elements longer : List Element} {last : List Attribute}
    (same : longer.map (·.attributes) = elements.map (·.attributes) ++ [last])
    (silent : ∀ kind : ReferenceKind, attributeValue? last kind.attributeName = none) :
    (build longer).references = (build elements).references := by
  have nothing (source : Nat) : referencesIn source last = [] := by simp [referencesIn,silent]
  rw [references_build_attributes,references_build_attributes,same,List.zipIdx_append,List.flatMap_append]
  simp [nothing]

end ReferenceIndex

namespace Document

theorem carries_iff {doc : Document} {id : String} :
    doc.Carries id ↔ ∃ attributes ∈ doc.elements.map (·.attributes), attributeValue? attributes "id" = some id := by
  simp [Carries,Element.value?]

theorem carries_concat {doc longer : Document} {last : List Attribute} {own : String}
    (same : longer.elements.map (·.attributes) = doc.elements.map (·.attributes) ++ [last])
    (named : attributeValue? last "id" = some own) (id : String) : longer.Carries id ↔ doc.Carries id ∨ id = own := by
  rw [carries_iff,carries_iff,same]
  simp [or_and_right,exists_or,named,eq_comm]

end Document

namespace Location

theorem charsBefore_append_of_le {first : List Char} {offset : Nat} (inside : offset ≤ byteLength first)
    (second : List Char) : charsBefore (first ++ second) offset = charsBefore first offset := by
  induction first generalizing offset with
  | nil =>
    obtain rfl := Nat.le_zero.mp inside
    cases second with
    | nil => rfl
    | cons c rest => exact if_neg (Nat.not_le_of_gt (Char.utf8Size_pos c))
  | cons c rest ih =>
    rw [List.cons_append,charsBefore,charsBefore]
    split_ifs with fits
    · rw [byteLength_cons] at inside
      rw [ih (by omega)]
    · rfl

theorem ofRange_append {first : List Char} {start stop : Nat} (ordered : start ≤ stop)
    (inside : stop ≤ byteLength first) (second : List Char) :
    ofRange (first ++ second) start stop = ofRange first start stop := by
  have offset : min start (byteLength (first ++ second)) = start := by
    grind
  have before : min start (byteLength first) = start := by omega
  have last : min stop (byteLength (first ++ second)) = min stop (byteLength first) := by
    grind
  simp only [ofRange,offset,before,last,charsBefore_append_of_le (Nat.le_trans ordered inside)]

end Location

theorem Document.attributeLocation_append {text more : List Char} {added : List (List Attribute)}
    (same : (Markup.elements (text ++ more)).map (·.attributes) = (Markup.elements text).map (·.attributes) ++ added)
    {i : Nat} {element : Element} {name : String} {attr : Attribute} (found : (read text).elements[i]? = some element)
    (first : findAttribute? element.attributes name = some attr) :
    (read (text ++ more)).attributeLocation i name = (read text).attributeLocation i name := by
  have inside : i < ((Markup.elements text).map (·.attributes)).length := by
    rw [List.length_map]
    exact (List.getElem?_eq_some_iff.mp found).1
  have kept : ((read (text ++ more)).elements.map (·.attributes))[i]? = ((read text).elements.map (·.attributes))[i]? :=
    (congrArg (·[i]?) same).trans (List.getElem?_append_left inside)
  rw [List.getElem?_map,List.getElem?_map,found,Option.map_some] at kept
  obtain ⟨after,present,attributes⟩ := Option.map_eq_some_iff.mp kept
  have again : after.attribute? name = some attr := by
    rw [Element.attribute?,attributes]
    exact first
  have before : element.attribute? name = some attr := first
  rw [attributeLocation,attributeLocation,present,found,Option.bind_some,Option.bind_some,again,before]
  have member : element ∈ Markup.elements text := List.mem_of_getElem? found
  obtain ⟨_,ordered,place,_⟩ := Element.attribute_place member (List.mem_of_find?_eq_some first)
  exact Location.ofRange_append ordered (Nat.le_trans place (Element.openStop_le member).2) more

namespace Rules.AriaReference

def message (kind : ReferenceKind) (id : String) : String :=
  s!"{kind.attributeName} references id \"{id}\", which does not exist in this document"

def misses (id : String) (violation : Violation) : Bool :=
  ReferenceKind.all.any fun kind => violation.message == message kind id

theorem takeWhile_message (kind : ReferenceKind) (id : String) :
    (message kind id).toList.takeWhile (· != ' ') = kind.attributeName.toList := by
  have name : ∀ c ∈ kind.attributeName.toList, (c != ' ') = true :=
    List.all_eq_true.mp (by cases kind <;> decide)
  have parts : (message kind id).toList = kind.attributeName.toList ++
      (" references id \"".toList ++ (id.toList ++ "\", which does not exist in this document".toList)) := by
    simp only [message,String.toList_append,List.append_assoc]
    rfl
  rw [parts,List.takeWhile_append_of_pos name]
  simp

theorem message_injective {kind other : ReferenceKind} {id target : String}
    (same : message kind id = message other target) : id = target := by
  have names : kind.attributeName = other.attributeName := by
    rw [← String.toList_inj,← takeWhile_message kind id,← takeWhile_message other target,same]
  rw [message,message,names] at same
  have chars := congrArg String.toList same
  simp only [String.toList_append,List.append_assoc,List.append_cancel_left_eq,List.append_cancel_right_eq] at chars
  exact String.toList_inj.mp chars

theorem misses_report {head : RuleHead} {doc : Document} {reference : Reference} {id : String} :
    misses id (report head doc reference) = (reference.target == id) := by
  have written : (report head doc reference).message = message reference.kind reference.target := rfl
  rw [Bool.eq_iff_iff,misses,List.any_eq_true,beq_iff_eq,written]
  constructor
  · intro ⟨kind,_,same⟩
    exact message_injective (beq_iff_eq.mp same)
  · rintro rfl
    exact ⟨reference.kind,by cases reference.kind <;> decide,beq_self_eq_true _⟩

variable {id : String}

/-- An element that carries an identifier is well-formed markup, whatever the identifier holds but its quotation mark. -/
theorem exists_idTag (quotable : '"' ∉ id.toList) : ∃ tag : QuotedTag, tag.IsSpaced ∧
    LexPhase.afterOpening tag.label tag.slash = .text ∧
    tag.render ++ tag.closing = "<i id=\"".toList ++ id.toList ++ "\"></i>".toList ∧
    ∀ offset name, attributeValue? (tag.attributesAt offset) name =
      if sameIgnoringCase "id" name then some id else none := by
  let attr : QuotedAttribute :=
    ⟨[' '],['i','d'],'"',id.toList,by simp,List.all_eq_true.mp rfl,by simp,by simp [endsName,isMarkupSpace],
      Or.inl rfl,fun _ member same => quotable (same ▸ member)⟩
  let tag : QuotedTag := ⟨['i'],[attr],[],false,⟨'i',[],rfl,rfl⟩,List.all_eq_true.mp rfl,by simp⟩
  refine ⟨tag,⟨fun other member => ?_,fun c member => absurd member List.not_mem_nil⟩,?_,?_,fun offset name => ?_⟩
  · rw [List.mem_singleton.mp member]
    exact List.all_eq_true.mp rfl
  · change LexPhase.afterOpening (String.ofList ['i']) false = .text
    decide
  · simp [tag,attr,QuotedTag.render,QuotedTag.closing,QuotedTag.body,QuotedAttribute.render,
      QuotedAttribute.assignment]
  · have own : tag.attributesAt offset = [attr.place (offset + 1 + byteLength ['i'])] := rfl
    rw [own,attributeValue?,findAttribute?,List.find?_singleton,Attribute.hasName]
    split_ifs with named same same
    · exact congrArg some String.ofList_toList
    · exact absurd named same
    · exact absurd same named
    · rfl

theorem report_append {head : RuleHead} {text more : List Char} {added : List (List Attribute)}
    (same : (elements (text ++ more)).map (·.attributes) = (elements text).map (·.attributes) ++ added)
    {reference : Reference} (known : reference ∈ (Document.read text).index.references) :
    report head (Document.read (text ++ more)) reference = report head (Document.read text) reference := by
  obtain ⟨element,value,found,written,_⟩ := Document.mem_references.mp known
  obtain ⟨attr,first,_⟩ := Option.map_eq_some_iff.mp written
  rw [report,report,Document.attributeLocation_append same found first]

/-- An element that carries an identifier, and refers to nothing, answers the references to it and no others. -/
theorem checkKinds_concat {head : RuleHead} {kinds : List ReferenceKind} {text more : List Char} {last : List Attribute}
    (same : (elements (text ++ more)).map (·.attributes) = (elements text).map (·.attributes) ++ [last])
    (named : attributeValue? last "id" = some id)
    (silent : ∀ kind : ReferenceKind, attributeValue? last kind.attributeName = none) :
    checkKinds kinds head (Document.read (text ++ more)) =
      (checkKinds kinds head (Document.read text)).filter fun violation => !misses id violation := by
  have references : (Document.read (text ++ more)).index.references = (Document.read text).index.references :=
    ReferenceIndex.references_concat same silent
  have ofKind : (Document.read (text ++ more)).index.ofKind = (Document.read text).index.ofKind := by
    funext kind
    rw [ReferenceIndex.ofKind,ReferenceIndex.ofKind,references]
  -- No target is blank, so a reference is answered exactly if its target is carried, before as after.
  have broken : ∀ reference ∈ kinds.flatMap (Document.read text).index.ofKind,
      isBroken (Document.read (text ++ more)) reference =
        (isBroken (Document.read text) reference && !misses id (report head (Document.read text) reference)) := by
    intro reference listed
    obtain ⟨_,_,_,_,target,_⟩ := Document.mem_references.mp (mem_ofKinds.mp listed).2
    have solid := ReferenceKind.blankString_of_mem_targets target
    have resolved : ((Document.read (text ++ more)).index.resolve? reference.target).isSome =
        (((Document.read text).index.resolve? reference.target).isSome || reference.target == id) := by
      rw [Bool.eq_iff_iff,Bool.or_eq_true,beq_iff_eq,Document.isSome_resolve?_iff solid,
        Document.isSome_resolve?_iff solid]
      exact Document.carries_concat same named _
    rw [misses_report,isBroken,isBroken,← Option.not_isSome,← Option.not_isSome,resolved,Bool.not_or,Bool.and_assoc]
  rw [checkKinds,checkKinds,ofKind,List.filter_congr broken,List.filter_map,List.filter_filter]
  simp only [Function.comp_def,Bool.and_comm]
  refine List.map_congr_left fun reference member => ?_
  obtain ⟨listed,_⟩ := List.mem_filter.mp member
  exact report_append same (mem_ofKinds.mp listed).2

/-- A missing identifier that is added behind a text repairs the references to it: the violations are those of the text
at their places, without the ones that say it is missing. There is none exactly if all that the attributes that count
refer to is there. -/
theorem missing_id_added (kinds : List ReferenceKind) (head : RuleHead) (text : List Char) (last : Tag) (id : String)
    (found : (lex text).getLast? = some last) (terminated : last.terminated = true)
    (ends : last.stop = byteLength text) (plain : ∀ element, phaseAfter text ≠ .raw element)
    (quotable : '"' ∉ id.toList) :
    let doc := Document.read text
    let longer := Document.read (text ++ ("<i id=\"".toList ++ id.toList ++ "\"></i>".toList))
    checkKinds kinds head longer = (checkKinds kinds head doc).filter (fun violation => !misses id violation) ∧
    (checkKinds kinds head doc = [] ↔ ∀ kind ∈ kinds, ∀ element ∈ doc.elements, ∀ value,
      element.value? kind.attributeName = some value → isDynamic value = false → doc.Answers kind value) := by
  intro doc longer
  have settled : ∀ other ∈ (lex text).getLast?, other.terminated = true := by
    intro other member
    rw [found] at member
    exact Option.some.inj member ▸ terminated
  have phase := phaseAfter_text found settled ends plain
  obtain ⟨tag,spaced,inner,written,values⟩ := exists_idTag quotable
  have same := map_attributes_append_tag tag spaced settled phase inner
  rw [written] at same
  refine ⟨checkKinds_concat same ?_ fun kind => ?_,checkKinds_eq_nil_iff head⟩
  · rw [values]
    rfl
  · rw [values,if_neg]
    cases kind <;> decide

theorem missing_id_added_twice :
    let text := "<p aria-labelledby=\"x y\" aria-describedby=\"x\"></p>".toList
    let doc := Document.read text
    let longer := Document.read (text ++ ("<i id=\"".toList ++ "x".toList ++ "\"></i>".toList))
    ¬doc.Carries "x" ∧ (checkKinds ReferenceKind.all (head .error) doc).map (fun violation => misses "x" violation) =
        [true,false,true] ∧
      checkKinds ReferenceKind.all (head .error) longer =
        (checkKinds ReferenceKind.all (head .error) doc).filter (fun violation => !misses "x" violation) ∧
      ¬doc.Answers .labelledBy "x y" := by
  intro text doc longer
  let last : Tag := ⟨.closing,"p",46,50,true⟩
  obtain ⟨found,ends,phase,absent,missing⟩ : (lex text).getLast? = some last ∧ last.stop = byteLength text ∧
      phaseAfter text = .text ∧ ¬doc.Carries "x" ∧
      (checkKinds ReferenceKind.all (head .error) doc).map (fun violation => misses "x" violation) =
        [true,false,true] := by decide +kernel
  have plain : ∀ element, phaseAfter text ≠ .raw element := by
    intro element
    rw [phase]
    exact LexPhase.noConfusion
  obtain ⟨repaired,_⟩ := missing_id_added ReferenceKind.all (head .error) text last "x" found rfl ends plain (by decide)
  exact ⟨absent,missing,repaired,fun answered => absent (answered "x" (by decide))⟩

/-- Of repeated attributes only the first is looked at: nothing is reported, though no element carries what the second
refers to. -/
theorem repeated_reference_silent :
    let text := "<i id=\"x\"></i><a aria-controls=\"x\" aria-controls=\"y\"></a>".toList
    let doc := Document.read text
    (∃ last, (lex text).getLast? = some last ∧ last.terminated = true ∧ last.stop = byteLength text) ∧
      phaseAfter text = .text ∧
      ¬(checkKinds ReferenceKind.all (head .error) doc = [] ↔ ∀ kind ∈ ReferenceKind.all, ∀ element ∈ doc.elements,
        ∀ attr ∈ element.attributes, attr.hasName kind.attributeName = true → isDynamic attr.value = false →
          doc.Answers kind attr.value) := by
  intro text doc
  obtain ⟨last,phase,silent,absent,second⟩ : (lex text).getLast? = some ⟨.closing,"a",53,57,true⟩ ∧
      phaseAfter text = .text ∧ checkKinds ReferenceKind.all (head .error) doc = [] ∧ ¬doc.Carries "y" ∧
      ∃ element ∈ doc.elements, ∃ attr ∈ element.attributes, attr.hasName "aria-controls" = true ∧ attr.value = "y" := by
    decide +kernel
  refine ⟨⟨_,last,rfl,by decide⟩,phase,fun every => ?_⟩
  obtain ⟨element,present,attr,own,named,value⟩ := second
  have answered := every.mp silent .controls (by decide) element present attr own named (by rw [value]; decide)
  rw [value] at answered
  exact absent (answered "y" (by decide))

end Rules.AriaReference

end AccessibleMarkup
