import AccessibleMarkup.Proofs.FixDemands
import AccessibleMarkup.Rules.Identifiers
import Mathlib.Data.List.TakeWhile

/-! What is looked up in the index of a document, and when a document has no broken reference. -/
namespace AccessibleMarkup

open Text Markup

namespace Text

theorem isAllBlank_of_mem_wordRuns {text word : List Char} (member : word ∈ wordRuns text) :
    isAllBlank word = false := by
  have solid {c : Char} (other : ¬isBlank c = true) (more : List Char) : isAllBlank (c :: more) = false := by
    simp [isAllBlank,other]
  fun_induction wordRuns text with
  | case1 => contradiction
  | case2 c rest blank ih => exact ih member
  | case3 c other =>
    rw [List.mem_singleton.mp member]
    exact solid other []
  | case4 c other d rest blank ih =>
    rcases List.mem_cons.mp member with rfl | later
    · exact solid other []
    · exact ih later
  | case5 c other d rest _ runs ih =>
    rw [runs] at member
    rw [List.mem_singleton.mp member]
    exact solid other []
  | case6 c other d rest _ word more runs ih =>
    rw [runs] at member
    rcases List.mem_cons.mp member with rfl | later
    · exact solid other word
    · exact ih (runs ▸ List.mem_cons_of_mem _ later)

theorem blankString_of_mem_words {s word : String} (member : word ∈ words s) : blankString word = false := by
  obtain ⟨run,listed,rfl⟩ := List.mem_map.mp member
  rw [blankString,String.toList_ofList]
  exact isAllBlank_of_mem_wordRuns listed

theorem isAllBlank_dropWhile (text : List Char) : isAllBlank (text.dropWhile isBlank) = isAllBlank text := by
  have parts := congrArg isAllBlank (List.takeWhile_append_dropWhile (p := isBlank) (l := text))
  rw [isAllBlank,List.all_append,List.all_takeWhile,Bool.true_and] at parts
  exact parts

theorem blankString_trim (s : String) : blankString (trim s) = blankString s := by
  rw [blankString,trim,String.toList_ofList,trimEnd,trimStart,isAllBlank,List.all_reverse]
  change isAllBlank _ = _
  rw [isAllBlank_dropWhile,isAllBlank,List.all_reverse]
  exact isAllBlank_dropWhile s.toList

theorem trim_eq_empty_iff {s : String} : trim s = "" ↔ blankString s = true := by
  constructor
  · intro empty
    rw [← blankString_trim,empty]
    rfl
  · intro blank
    have start : trimStart s.toList = [] := List.dropWhile_eq_nil_iff.mpr (List.all_eq_true.mp blank)
    rw [trim,start]
    rfl

end Text

namespace ReferenceKind

variable {kind : ReferenceKind} {value id : String}

theorem mem_targets_of_list (list : kind.isList = true) (static : isDynamic value = false) :
    id ∈ kind.targets value ↔ id ∈ words value := by
  rw [targets,static,list]
  simp only [Bool.not_true,Bool.or_false,Bool.false_eq_true,if_false,List.mem_filter,bne_iff_ne,and_iff_left_iff_imp]
  intro member empty
  have solid := blankString_of_mem_words member
  rw [empty] at solid
  contradiction

theorem mem_targets_of_single (single : kind.isList = false) :
    id ∈ kind.targets value ↔ blankString value = false ∧ id = trim value := by
  rw [targets,single]
  simp only [Bool.not_false,Bool.or_true,if_true,List.mem_filter,List.mem_singleton,bne_iff_ne]
  rw [and_comm]
  refine and_congr_left fun same => ?_
  rw [same,ne_eq,trim_eq_empty_iff,Bool.not_eq_true]

theorem blankString_of_mem_targets (member : id ∈ kind.targets value) : blankString id = false := by
  rw [targets] at member
  obtain ⟨named,filled⟩ := List.mem_filter.mp member
  split_ifs at named
  · rw [List.mem_singleton.mp named] at filled ⊢
    rw [blankString_trim,← Bool.not_eq_true,← trim_eq_empty_iff]
    exact bne_iff_ne.mp filled
  · exact blankString_of_mem_words named

end ReferenceKind

namespace ReferenceIndex

theorem add_cases (index : ReferenceIndex) (source : Nat) (element : Element) :
    (identifier? element = none ∧ (index.add source element).owners = index.owners ∧
      (index.add source element).duplicates = index.duplicates) ∨
    (∃ id, identifier? element = some id ∧ (index.resolve? id).isSome = true ∧
      (index.add source element).owners = index.owners ∧
      (index.add source element).duplicates = index.duplicates ++ [(id,source)]) ∨
    (∃ id, identifier? element = some id ∧ index.resolve? id = none ∧
      (index.add source element).owners = index.owners ++ [(id,source)] ∧
      (index.add source element).duplicates = index.duplicates) := by
  unfold add
  cases named : identifier? element with
  | none => exact Or.inl ⟨rfl,rfl,rfl⟩
  | some id =>
    by_cases taken : (index.owners.lookup id).isSome = true
    · exact Or.inr (Or.inl ⟨id,rfl,taken,by simp [taken],by simp [taken]⟩)
    · exact Or.inr (Or.inr ⟨id,rfl,Option.not_isSome_iff_eq_none.mp taken,by simp [taken],by simp [taken]⟩)

theorem resolve?_add (index : ReferenceIndex) (source : Nat) (element : Element) (id : String) :
    (index.add source element).resolve? id =
      (index.resolve? id).or (if identifier? element = some id then some source else none) := by
  rcases add_cases index source element with ⟨named,owners,_⟩ | ⟨own,named,taken,owners,_⟩ | ⟨own,named,free,owners,_⟩
  · rw [resolve?,owners,named,if_neg (by simp),Option.or_none]
    rfl
  · rw [resolve?,owners,named]
    by_cases same : own = id
    · obtain ⟨first,found⟩ := Option.isSome_iff_exists.mp taken
      rw [← same,found,Option.some_or]
      exact found
    · rw [if_neg (by simpa using same),Option.or_none]
      rfl
  · rw [resolve?,owners,named,List.lookup_append,List.lookup_cons]
    by_cases same : own = id
    · simp [same,resolve?]
    · simp [same,beq_eq_false_iff_ne.mpr (Ne.symm same),resolve?]

theorem isSome_resolve?_add (index : ReferenceIndex) (source : Nat) (element : Element) (id : String) :
    ((index.add source element).resolve? id).isSome = true ↔
      (index.resolve? id).isSome = true ∨ identifier? element = some id := by
  rw [resolve?_add,Option.isSome_or,Bool.or_eq_true]
  refine or_congr_right ?_
  by_cases named : identifier? element = some id <;> simp [named]

theorem references_add (index : ReferenceIndex) (source : Nat) (element : Element) :
    (index.add source element).references = index.references ++ referencesOf source element := by
  rw [add]
  split
  · rfl
  · split_ifs <;> rfl

theorem foldl_add (entries : List (Element × Nat)) (index : ReferenceIndex) :
    (entries.foldl (fun index entry => index.add entry.2 entry.1) index).references =
        index.references ++ entries.flatMap (fun entry => referencesOf entry.2 entry.1) ∧
      ∀ id, ((entries.foldl (fun index entry => index.add entry.2 entry.1) index).resolve? id).isSome = true ↔
        (index.resolve? id).isSome = true ∨ ∃ entry ∈ entries, identifier? entry.1 = some id := by
  induction entries generalizing index with
  | nil => simp
  | cons entry rest ih =>
    obtain ⟨references,owners⟩ := ih (index.add entry.2 entry.1)
    rw [List.foldl_cons]
    refine ⟨by rw [references,references_add,List.flatMap_cons,List.append_assoc],fun id => ?_⟩
    rw [owners,isSome_resolve?_add,or_assoc]
    simp

theorem references_build (elements : List Element) : (build elements).references =
    elements.zipIdx.flatMap fun entry => referencesOf entry.2 entry.1 :=
  (foldl_add elements.zipIdx {}).1

theorem mem_referencesOf {reference : Reference} {source : Nat} {element : Element} :
    reference ∈ referencesOf source element ↔ reference.source = source ∧
      ∃ value, element.value? reference.kind.attributeName = some value ∧
        reference.target ∈ reference.kind.targets value ∧ reference.dynamic = isDynamic value := by
  rw [referencesOf,List.mem_flatMap]
  constructor
  · rintro ⟨kind,_,inside⟩
    split at inside
    next value written =>
      obtain ⟨target,named,rfl⟩ := List.mem_map.mp inside
      exact ⟨rfl,value,written,named,rfl⟩
    next => contradiction
  · rintro ⟨same,value,written,named,dynamic⟩
    refine ⟨reference.kind,by cases reference.kind <;> decide,?_⟩
    rw [written]
    exact List.mem_map.mpr ⟨reference.target,named,by rw [← same,← dynamic]⟩

end ReferenceIndex

namespace Document

variable {source : List Char} {filter : Filter}

def Carries (doc : Document) (id : String) : Prop := ∃ owner ∈ doc.elements, owner.value? "id" = some id

instance (doc : Document) (id : String) : Decidable (doc.Carries id) :=
  inferInstanceAs (Decidable (∃ owner ∈ doc.elements, owner.value? "id" = some id))

theorem isSome_resolve?_iff {id : String} (solid : blankString id = false) :
    ((read source filter).index.resolve? id).isSome = true ↔ (read source filter).Carries id := by
  have known := (ReferenceIndex.foldl_add (read source filter).elements.zipIdx {}).2 id
  have empty : (({} : ReferenceIndex).resolve? id).isSome = false := rfl
  rw [empty,Bool.false_eq_true,false_or] at known
  refine known.trans ⟨fun ⟨entry,listed,named⟩ => ?_,fun ⟨owner,present,named⟩ => ?_⟩
  · exact ⟨entry.1,List.fst_mem_of_mem_zipIdx listed,(Option.filter_eq_some_iff.mp named).1⟩
  · obtain ⟨i,found⟩ := List.mem_iff_getElem?.mp present
    refine ⟨(owner,i),List.mem_zipIdx_iff_getElem?.mpr found,Option.filter_eq_some_iff.mpr ⟨named,?_⟩⟩
    rw [solid]
    rfl

/-- All that a value refers to is carried by elements of the document: each word of a list, or the value as a whole. -/
def Answers (doc : Document) (kind : ReferenceKind) (value : String) : Prop :=
  match kind with
  | .labelFor => blankString value = false → doc.Carries (trim value)
  | _ => ∀ id ∈ words value, doc.Carries id

theorem answers_iff {doc : Document} {kind : ReferenceKind} {value : String} (static : isDynamic value = false) :
    doc.Answers kind value ↔ ∀ id ∈ kind.targets value, doc.Carries id := by
  cases list : kind.isList with
  | true =>
    have words : doc.Answers kind value ↔ ∀ id ∈ words value, doc.Carries id := by
      cases kind <;> first | contradiction | rfl
    simp only [words,ReferenceKind.mem_targets_of_list list static]
  | false =>
    have whole : doc.Answers kind value ↔ (blankString value = false → doc.Carries (trim value)) := by
      cases kind <;> first | contradiction | rfl
    simp only [whole,ReferenceKind.mem_targets_of_single list,and_imp,forall_eq_apply_imp_iff]

theorem mem_references {reference : Reference} : reference ∈ (read source filter).index.references ↔
    ∃ element value, (read source filter).elements[reference.source]? = some element ∧
      element.value? reference.kind.attributeName = some value ∧
      reference.target ∈ reference.kind.targets value ∧ reference.dynamic = isDynamic value := by
  change _ ∈ (ReferenceIndex.build (read source filter).elements).references ↔ _
  rw [ReferenceIndex.references_build,List.mem_flatMap]
  constructor
  · intro ⟨entry,listed,refers⟩
    obtain ⟨same,value,held⟩ := ReferenceIndex.mem_referencesOf.mp refers
    exact ⟨entry.1,value,same ▸ List.mem_zipIdx_iff_getElem?.mp listed,held⟩
  · intro ⟨element,value,found,held⟩
    exact ⟨(element,reference.source),List.mem_zipIdx_iff_getElem?.mpr found,
      ReferenceIndex.mem_referencesOf.mpr ⟨rfl,value,held⟩⟩

end Document

namespace Rules.AriaReference

variable {source : List Char} {filter : Filter} {kinds : List ReferenceKind}

theorem mem_ofKinds {reference : Reference} : reference ∈ kinds.flatMap (Document.read source filter).index.ofKind ↔
    reference.kind ∈ kinds ∧ reference ∈ (Document.read source filter).index.references := by
  rw [List.mem_flatMap]
  constructor
  · intro ⟨kind,listed,held⟩
    obtain ⟨known,same⟩ := List.mem_filter.mp held
    exact ⟨beq_iff_eq.mp same ▸ listed,known⟩
  · intro ⟨listed,known⟩
    exact ⟨reference.kind,listed,List.mem_filter.mpr ⟨known,beq_self_eq_true _⟩⟩

theorem isBroken_eq_false_iff {doc : Document} {reference : Reference} : isBroken doc reference = false ↔
    (reference.dynamic = false → (doc.index.resolve? reference.target).isSome = true) := by
  rw [isBroken]
  cases reference.dynamic <;> cases doc.index.resolve? reference.target <;> simp

theorem checkKinds_eq_nil_iff (head : RuleHead) : checkKinds kinds head (Document.read source filter) = [] ↔
    ∀ kind ∈ kinds, ∀ element ∈ (Document.read source filter).elements, ∀ value,
      element.value? kind.attributeName = some value → isDynamic value = false →
        (Document.read source filter).Answers kind value := by
  rw [checkKinds,List.map_eq_nil_iff,List.filter_eq_nil_iff]
  constructor
  · intro silent kind listed element present value written static
    refine (Document.answers_iff static).mpr fun id named => ?_
    obtain ⟨i,found⟩ := List.mem_iff_getElem?.mp present
    have held : (⟨kind,i,id,isDynamic value⟩ : Reference) ∈ (Document.read source filter).index.references :=
      Document.mem_references.mpr ⟨element,value,found,written,named,rfl⟩
    have whole := Bool.eq_false_iff.mpr (silent _ (mem_ofKinds.mpr ⟨listed,held⟩))
    have found := isBroken_eq_false_iff.mp whole static
    exact (Document.isSome_resolve?_iff (ReferenceKind.blankString_of_mem_targets named)).mp found
  · intro every reference known
    obtain ⟨listed,held⟩ := mem_ofKinds.mp known
    obtain ⟨element,value,found,written,named,dynamic⟩ := Document.mem_references.mp held
    rw [Bool.not_eq_true,isBroken_eq_false_iff]
    intro static
    refine (Document.isSome_resolve?_iff (ReferenceKind.blankString_of_mem_targets named)).mpr ?_
    rw [dynamic] at static
    have answered := every _ listed element (List.mem_of_getElem? found) value written static
    exact (Document.answers_iff static).mp answered _ named

end Rules.AriaReference

end AccessibleMarkup
