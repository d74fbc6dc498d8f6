import AccessibleMarkup.Proofs.FixExhaustion
import AccessibleMarkup.Proofs.PlainRepairs
import AccessibleMarkup.Proofs.SharedAttributes
import AccessibleMarkup.Proofs.TemplatedValues
import Mathlib.Data.List.Forall2

/-! Attributes that are written twice in a tag. Each of them is judged, but a report and its fix find their
place by the name, and so meet the first one. The main result is `illegal_values_reported`. -/
namespace AccessibleMarkup

open Text Markup

namespace Markup

variable {text : List Char} {element : Element} {attr earlier : Attribute}

theorem Element.attribute_pos (member : element ∈ elements text) (own : attr ∈ element.attributes) :
    attr.range.start < attr.range.stop := by
  obtain ⟨node,found,rfl⟩ := List.mem_map.mp member
  have kept : Filter.apply Filter.keep text = text := rfl
  rw [← kept] at found
  obtain ⟨before,name,inner,body,after,written⟩ := Filter.exists_partsIn found
  obtain ⟨⟨nonempty,_⟩,chars,⟨_,_,_,_,stop⟩,spelling⟩ := written.attribute_speltIn attr own
  have positive := spelling.byteLength_pos nonempty
  omega

theorem Element.first_or_after (member : element ∈ elements text) {name : String} {first : Attribute}
    (found : element.attribute? name = some first) (own : attr ∈ element.attributes)
    (named : attr.hasName name = true) : attr = first ∨ first.range.stop ≤ attr.range.start := by
  obtain ⟨_,before,after,parts,others⟩ := List.find?_eq_some_iff_append.mp found
  rw [parts] at own
  rcases List.mem_append.mp own with front | back
  · have other := others attr front
    simp [named] at other
  · rcases List.mem_cons.mp back with same | further
    · exact Or.inl same
    · have ordered := Element.attributes_inOrder member
      rw [parts,List.pairwise_append] at ordered
      exact Or.inr ((List.pairwise_cons.mp ordered.2.1).1 attr further)

/-- The first attribute of a name stands where an attribute of that name does if and only if none of that name
stands before it. -/
theorem Element.first_range_iff (member : element ∈ elements text) (own : attr ∈ element.attributes)
    {first : Attribute} (found : element.attribute? attr.name = some first) :
    first.range = attr.range ↔ ∀ earlier ∈ element.attributes, earlier.range.stop ≤ attr.range.start →
      earlier.hasName attr.name = false := by
  constructor
  · intro same earlier there apart
    rw [← same] at apart
    rw [Bool.eq_false_iff]
    intro named
    have positive := Element.attribute_pos member there
    have sized := Element.attribute_pos member (List.mem_of_find?_eq_some found)
    rcases Element.first_or_after member found there named with rfl | later <;> omega
  · intro fresh
    rcases Element.first_or_after member found own (sameIgnoringCase_refl _) with same | later
    · rw [same]
    · have other := fresh first (List.mem_of_find?_eq_some found) later
      rw [List.find?_some found] at other
      contradiction

end Markup

theorem Location.ofRange_range {text : List Char} {start stop : Nat} (ordered : start ≤ stop)
    (inside : stop ≤ byteLength text) : (Location.ofRange text start stop).range = ⟨start,stop⟩ := by
  simp only [Location.range,Location.ofRange,ByteRange.mk.injEq]
  omega

namespace Rules.AriaAttributeValue

/-- The value of an attribute is none of those that a table has for its name. -/
inductive Illegal (attr : Attribute) (legal : List String) : Prop
  | single (name : String) (listed : (name,legal) ∈ singleValued)
      (named : sameIgnoringCase attr.name name = true)
      (other : ∀ choice ∈ legal, sameIgnoringCase (trim attr.value) choice = false)
  | many (name : String) (listed : (name,legal) ∈ manyValued)
      (named : sameIgnoringCase attr.name name = true)
      (other : trim attr.value = "" ∨
        ∃ word ∈ words (trim attr.value), ∀ choice ∈ legal, sameIgnoringCase word choice = false)

theorem legalValues?_eq_some_iff {table : List (String × List String)}
    (distinct : table.Pairwise fun one other => sameIgnoringCase one.1 other.1 = false) {name : String}
    {legal : List String} : legalValues? table name = some legal ↔
      ∃ key, (key,legal) ∈ table ∧ sameIgnoringCase name key = true := by
  constructor
  · intro found
    obtain ⟨entry,first,rfl⟩ := Option.map_eq_some_iff.mp found
    have named := List.find?_some first
    exact ⟨entry.1,List.mem_of_find?_eq_some first,named⟩
  · rintro ⟨key,listed,named⟩
    obtain ⟨before,after,parts⟩ := List.append_of_mem listed
    have others : ∀ entry ∈ before, (!sameIgnoringCase name entry.1) = true := by
      intro entry member
      rw [parts,List.pairwise_append] at distinct
      have other := distinct.2.2 entry member (key,legal) List.mem_cons_self
      rw [sameIgnoringCase_congr named,sameIgnoringCase_comm,other]
      rfl
    have first : (table.find? fun entry => sameIgnoringCase name entry.1) = some (key,legal) :=
      List.find?_eq_some_iff_append.mpr ⟨named,before,after,parts,others⟩
    rw [legalValues?,first]
    rfl

theorem violated?_eq_some_iff (attr : Attribute) (legal : List String) :
    violated? attr = some legal ↔ isDynamic attr.value = false ∧ Illegal attr legal := by
  have single : singleValued.Pairwise fun one other => sameIgnoringCase one.1 other.1 = false := by decide +kernel
  have many : manyValued.Pairwise fun one other => sameIgnoringCase one.1 other.1 = false := by decide
  have apart : ∀ one ∈ singleValued, ∀ other ∈ manyValued, sameIgnoringCase one.1 other.1 = false := by
    decide +kernel
  have oneOf (word : String) (choices : List String) : oneOfIgnoringCase word choices = false ↔
      ∀ choice ∈ choices, sameIgnoringCase word choice = false := by
    rw [oneOfIgnoringCase,List.any_eq_false]
    simp only [Bool.not_eq_true]
  have spelt (value : String) (choices : List String) : legalWords value choices = false ↔
      value = "" ∨ ∃ word ∈ words value, ∀ choice ∈ choices, sameIgnoringCase word choice = false := by
    rw [legalWords,Bool.and_eq_false_iff,bne_eq_false_iff_eq,List.all_eq_false]
    simp only [Bool.not_eq_true,oneOf]
  unfold violated?
  dsimp only
  split_ifs with dynamic
  · simp [dynamic]
  · rw [Bool.not_eq_true] at dynamic
    simp only [dynamic,true_and]
    split
    next choices found =>
      obtain ⟨key,held,known⟩ := (legalValues?_eq_some_iff single).mp found
      constructor
      · intro judged
        split_ifs at judged with legalValue
        obtain rfl := Option.some.inj judged
        exact .single key held known ((oneOf _ _).mp (Bool.eq_false_iff.mpr legalValue))
      · intro illegal
        cases illegal with
        | single name listed named other =>
          obtain rfl := Option.some.inj (found.symm.trans ((legalValues?_eq_some_iff single).mpr ⟨name,listed,named⟩))
          rw [if_neg (Bool.eq_false_iff.mp ((oneOf _ _).mpr other))]
        | many name listed named _ =>
          have same := apart _ held _ listed
          rw [← sameIgnoringCase_congr known,named] at same
          exact absurd same.symm Bool.false_ne_true
    next absent =>
      rw [Option.filter_eq_some_iff,legalValues?_eq_some_iff many,Bool.not_eq_true',spelt]
      constructor
      · rintro ⟨⟨name,listed,named⟩,other⟩
        exact .many name listed named other
      · intro illegal
        cases illegal with
        | single name listed named _ =>
          rw [(legalValues?_eq_some_iff single).mpr ⟨name,listed,named⟩] at absent
          exact absurd absent (Option.some_ne_none legal)
        | many name listed named other => exact ⟨⟨name,listed,named⟩,other⟩

/-- The attributes of a document with illegal values, in document order, with the indices of their
elements. -/
def offending (doc : Document) : List (Nat × Attribute) :=
  doc.indexed.flatMap fun (element,i) =>
    (element.attributes.filter fun attr => (violated? attr).isSome).map fun attr => (i,attr)

variable {source : List Char} {filter : Filter}

theorem mem_offending {doc : Document} {i : Nat} {attr : Attribute} :
    (i,attr) ∈ offending doc ↔ ∃ element, doc.elements[i]? = some element ∧ attr ∈ element.attributes ∧
      isDynamic attr.value = false ∧ ∃ legal, Illegal attr legal := by
  have judged : (violated? attr).isSome = true ↔ isDynamic attr.value = false ∧ ∃ legal, Illegal attr legal := by
    rw [Option.isSome_iff_exists]
    simp only [violated?_eq_some_iff,exists_and_left]
  simp only [offending,List.mem_flatMap,List.mem_map,List.mem_filter,Prod.exists,Prod.mk.injEq]
  constructor
  · rintro ⟨element,j,indexed,attr,⟨own,illegal⟩,rfl,rfl⟩
    exact ⟨element,doc.mem_indexed element j indexed,own,judged.mp illegal⟩
  · rintro ⟨element,found,own,illegal⟩
    exact ⟨element,i,List.mem_zipIdx_iff_getElem?.mpr found,attr,⟨own,judged.mpr illegal⟩,rfl,rfl⟩

theorem offending_inOrder (source : List Char) (filter : Filter) :
    (offending (Document.read source filter)).Pairwise fun one other =>
      one.2.range.stop ≤ other.2.range.start := by
  have listed : (Document.read source filter).indexed.Pairwise fun one other => one.1.start < other.1.start := by
    have rising := (elements_preorderForest (filter.apply source)).rising
    have same : (Document.read source filter).indexed.map Prod.fst = elements (filter.apply source) :=
      List.zipIdx_map_fst 0 _
    rwa [← same,List.pairwise_map] at rising
  have present (entry : Element × Nat) (member : entry ∈ (Document.read source filter).indexed) :
      entry.1 ∈ elements (filter.apply source) :=
    List.mem_of_getElem? (Document.mem_indexed _ _ _ member)
  rw [offending,List.pairwise_flatMap]
  refine ⟨fun entry member => ?_,listed.imp_of_mem fun {entry later} member there before => ?_⟩
  · rw [List.pairwise_map]
    exact (Element.attributes_inOrder (present entry member)).sublist List.filter_sublist
  · intro one first other second
    obtain ⟨attr,judged,rfl⟩ := List.mem_map.mp first
    obtain ⟨next,rejudged,rfl⟩ := List.mem_map.mp second
    obtain ⟨_,_,stops,_⟩ := Element.attribute_place (present entry member) (List.mem_filter.mp judged).1
    obtain ⟨starts,_⟩ := Element.attribute_place (present later there) (List.mem_filter.mp rejudged).1
    have opened := Element.openStop_le (present later there)
    rcases Element.eq_or_apart (present entry member) (present later there) with same | apart | apart
    · rw [same] at before
      exact absurd before (Nat.lt_irrefl _)
    · exact stops.trans (apart.trans starts)
    · omega

def complaint (attr : Attribute) (legal : List String) : String :=
  let value := trim attr.value
  let choices := String.intercalate ", " legal
  if value = "" then s!"{attr.name} has an empty value; expected one of: {choices}"
  else s!"Invalid value \"{value}\" for {attr.name}; expected one of: {choices}"

def report (head : RuleHead) (doc : Document) (i : Nat) (attr : Attribute) (legal : List String) : Violation :=
  head.violation (doc.attributeLocation i attr.name) (complaint attr legal)
    [suggestion attr.name (trim attr.value) legal]

theorem judge?_eq (head : RuleHead) (doc : Document) (i : Nat) (attr : Attribute) :
    judge? head doc i attr = (violated? attr).map (report head doc i attr) := by
  unfold judge?
  cases violated? attr <;> rfl

theorem check_offending (head : RuleHead) (doc : Document) :
    List.Forall₂ (fun entry violation => ∃ legal, violated? entry.2 = some legal ∧
      violation = report head doc entry.1 entry.2 legal) (offending doc) (check head doc) := by
  have judged (i : Nat) (attributes : List Attribute) :
      List.Forall₂ (fun entry violation => ∃ legal, violated? entry.2 = some legal ∧
          violation = report head doc entry.1 entry.2 legal)
        ((attributes.filter fun attr => (violated? attr).isSome).map fun attr => (i,attr))
        (attributes.filterMap (judge? head doc i)) := by
    induction attributes with
    | nil => exact .nil
    | cons attr rest ih =>
      cases illegal : violated? attr with
      | none =>
        rw [List.filter_cons_of_neg (by simp [illegal]),List.filterMap_cons_none (by rw [judge?_eq,illegal]; rfl)]
        exact ih
      | some legal =>
        rw [List.filter_cons_of_pos (by simp [illegal]),List.map_cons,
          List.filterMap_cons_some (by rw [judge?_eq,illegal]; rfl)]
        exact .cons ⟨legal,illegal,rfl⟩ ih
  unfold offending check
  induction doc.indexed with
  | nil => exact .nil
  | cons entry rest ih =>
    rw [List.flatMap_cons,List.flatMap_cons]
    exact List.rel_append (judged entry.2 entry.1.attributes) ih

/-- A report on the value of an attribute. It stands at the first attribute of that name in the element, and
its fix rewrites that one. -/
structure StandsAtFirst (source : List Char) (filter : Filter) (entry : Nat × Attribute) (violation : Violation)
    (element : Element) (first : Attribute) : Prop where
  holder : (Document.read source filter).elements[entry.1]? = some element
  found : element.attribute? entry.2.name = some first
  place : violation.range = first.range
  own_place : violation.range = entry.2.range ↔ ∀ earlier ∈ element.attributes,
    earlier.range.stop ≤ entry.2.range.start → earlier.hasName entry.2.name = false
  message : ∃ legal, Illegal entry.2 legal ∧ violation.message = complaint entry.2 legal
  fixes : ∀ fix ∈ violation.fixes, ∃ meant, fix = .setAttribute (asciiLower entry.2.name) meant ∧
    (filter = Filter.keep ∨ Fix.writtenAttributes source element.toNode = element.attributes →
      fix.plan source violation.location.offset filter =
        .ok (if first.value = meant && first.quote = .double then .skipped .alreadySatisfied
          else .applied ⟨first.range,Fix.writeWithValue first.name meant⟩))

theorem Illegal.isAttributeName {attr : Attribute} {legal : List String} (illegal : Illegal attr legal) :
    Fix.isAttributeName (asciiLower attr.name) = true := by
  cases illegal with
  | single name listed same _ =>
    have writable : ∀ entry ∈ singleValued, Fix.isAttributeName (asciiLower entry.1) = true := by decide +kernel
    rw [sameIgnoringCase,beq_iff_eq] at same
    rw [same]
    exact writable (name,legal) listed
  | many name listed same _ =>
    have writable : ∀ entry ∈ manyValued, Fix.isAttributeName (asciiLower entry.1) = true := by decide +kernel
    rw [sameIgnoringCase,beq_iff_eq] at same
    rw [same]
    exact writable (name,legal) listed

theorem findAttribute?_asciiLower (attributes : List Attribute) (name : String) :
    findAttribute? attributes (asciiLower name) = findAttribute? attributes name := by
  unfold findAttribute? Attribute.hasName sameIgnoringCase
  rw [asciiLower_asciiLower]

theorem fix_of_report {head : RuleHead} {doc : Document} {i : Nat} {attr : Attribute} {legal : List String}
    {fix : Fix} (offered : fix ∈ (report head doc i attr legal).fixes) :
    ∃ meant, fix = .setAttribute (asciiLower attr.name) meant := by
  have suggested : (report head doc i attr legal).suggestions = [suggestion attr.name (trim attr.value) legal] := rfl
  rw [Report.mem_fixes,suggested] at offered
  obtain ⟨advice,only,asked⟩ := offered
  rw [List.mem_singleton.mp only,suggestion] at asked
  split at asked
  next meant _ =>
    simp only [Option.some.injEq] at asked
    exact ⟨meant,asked.symm⟩
  next => simp at asked

theorem written_of_keep {element : Element} (member : element ∈ elements (Filter.keep.apply source)) :
    Fix.writtenAttributes source element.toNode = element.attributes := by
  obtain ⟨node,_,rfl⟩ := List.mem_map.mp member
  rfl

/-- Each attribute whose value is illegal and not made by a template is reported, once and in the order of the
document, and nothing else is. A report and its fix are about the first attribute of the name in that element,
which is the reported one unless the name was written before. -/
theorem illegal_values_reported (head : RuleHead) (source : List Char) (filter : Filter) :
    let doc := Document.read source filter
    (∀ i attr, (i,attr) ∈ offending doc ↔ ∃ element, doc.elements[i]? = some element ∧
      attr ∈ element.attributes ∧ isDynamic attr.value = false ∧ ∃ legal, Illegal attr legal) ∧
    ((offending doc).Pairwise fun one other => one.2.range.stop ≤ other.2.range.start) ∧
    List.Forall₂ (fun entry violation => ∃ element first, StandsAtFirst source filter entry violation element first)
      (offending doc) (check head doc) := by
  intro doc
  refine ⟨fun _ _ => mem_offending,offending_inOrder source filter,?_⟩
  obtain ⟨sizes,reported⟩ := List.forall₂_iff_zip.mp (check_offending head doc)
  refine List.forall₂_iff_zip.mpr ⟨sizes,fun {entry violation} paired => ?_⟩
  obtain ⟨legal,violated,rfl⟩ := reported paired
  obtain ⟨i,attr⟩ := entry
  obtain ⟨element,holder,own,_⟩ := mem_offending.mp (List.of_mem_zip paired).1
  obtain ⟨_,illegal⟩ := (violated?_eq_some_iff attr legal).mp violated
  have member : element ∈ elements (filter.apply source) := List.mem_of_getElem? holder
  have present : (element.attribute? attr.name).isSome = true := by
    rw [Element.attribute?,findAttribute?,List.find?_isSome]
    exact ⟨attr,own,sameIgnoringCase_refl attr.name⟩
  obtain ⟨first,found⟩ := Option.isSome_iff_exists.mp present
  have inside : first ∈ element.attributes := List.mem_of_find?_eq_some found
  obtain ⟨starts,ordered,stops,_⟩ := Element.attribute_place member inside
  have opened := Element.openStop_le member
  rw [Filter.byteLength_apply] at opened
  have location : (report head doc i attr legal).location = Location.ofRange source first.range.start first.range.stop := by
    change doc.attributeLocation i attr.name = _
    rw [Document.attributeLocation,holder,Option.bind_some,found]
    rfl
  have place : (report head doc i attr legal).range = first.range := by
    rw [Violation.range,location,Location.ofRange_range ordered (by omega)]
  refine ⟨element,first,holder,found,place,?_,⟨legal,illegal,rfl⟩,fun fix offered => ?_⟩
  · rw [place]
    exact Element.first_range_iff member own found
  · obtain ⟨meant,rfl⟩ := fix_of_report offered
    refine ⟨meant,rfl,fun unfiltered => ?_⟩
    have attributes : Fix.writtenAttributes source element.toNode = element.attributes := by
      rcases unfiltered with rfl | same
      · exact written_of_keep member
      · exact same
    have node : element.toNode ∈ outlineNodes (filter.apply source) := by
      obtain ⟨node,outlined,rfl⟩ := List.mem_map.mp member
      exact outlined
    have positive := Element.attribute_pos member inside
    have offset : (report head doc i attr legal).location.offset = first.range.start :=
      congrArg ByteRange.start place
    obtain ⟨parent,planned⟩ := Fix.plan_inside_filtered (.setAttribute (asciiLower attr.name) meant) source filter
      element.toNode node first.range.start starts (by omega)
      (by simp [Fix.invalidName?,illegal.isAttributeName])
    have known : findAttribute? element.attributes (asciiLower attr.name) = some first := by
      rw [findAttribute?_asciiLower]
      exact found
    rw [offset,planned,Fix.planOn,Fix.planSet,attributes,known]

/-- The second value is illegal, and the report stands at the first one. -/
example : (check (rule .error).toRuleHead
    (Document.read "<p aria-hidden=\"true\" ARIA-HIDDEN=\"yes\"></p>".toList)).map (·.range) = [⟨3,21⟩] := by
  decide +kernel

end Rules.AriaAttributeValue

end AccessibleMarkup
