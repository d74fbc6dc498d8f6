import AccessibleMarkup.Proofs.NavigationNames
import AccessibleMarkup.Proofs.ReferenceLookups
import Mathlib.Order.Bounds.Basic

/-! The index of a list of elements against the elements themselves: who owns an identifier, who repeats one, and
that the references can be followed both ways. What is known about the identifiers of the elements read so far is
`Indexes`; the main result is `faithful_build`. -/
namespace AccessibleMarkup

open Text Markup

/-- What a value of the kind refers to: one identifier, if the kind has only one or a template makes the value, and
each of its words otherwise. -/
def ReferenceKind.written (kind : ReferenceKind) (value : String) : List String :=
  if kind = labelFor ∨ isDynamic value = true then [trim value].filter (· ≠ "") else words value

theorem ReferenceKind.targets_eq_written (kind : ReferenceKind) (value : String) :
    kind.targets value = kind.written value := by
  have single : (isDynamic value || !kind.isList) = true ↔ kind = labelFor ∨ isDynamic value = true := by
    cases kind <;> simp [isList]
  have solid : (words value).filter (· != "") = words value := by
    refine List.filter_eq_self.mpr fun word member => bne_iff_ne.mpr fun empty => ?_
    have filled := blankString_of_mem_words member
    rw [empty] at filled
    contradiction
  rw [targets,written]
  by_cases whole : kind = labelFor ∨ isDynamic value = true
  · rw [if_pos whole,if_pos (single.mpr whole)]
    exact List.filter_congr fun _ _ => (decide_not ..).symm
  · rw [if_neg whole,if_neg (mt single.mp whole),solid]

namespace ReferenceIndex

/-- The first `id` attribute of an element gives it the identifier, which is not blank. -/
def BearsAt (elements : List Element) (i : Nat) (id : String) : Prop :=
  ∃ element, elements[i]? = some element ∧ element.value? "id" = some id ∧ blankString id = false

theorem identifier?_eq_some_iff {element : Element} {id : String} :
    identifier? element = some id ↔ element.value? "id" = some id ∧ blankString id = false := by
  rw [identifier?,Option.filter_eq_some_iff,Bool.not_eq_true']

variable {read : List Element} {index : ReferenceIndex}

theorem BearsAt.lt {i : Nat} {id : String} (bears : BearsAt read i id) : i < read.length := by
  obtain ⟨_,found,_⟩ := bears
  exact (List.getElem?_eq_some_iff.mp found).1

theorem bearsAt_append {element : Element} {i : Nat} {id : String} : BearsAt (read ++ [element]) i id ↔
    BearsAt read i id ∨ i = read.length ∧ identifier? element = some id := by
  rw [identifier?_eq_some_iff]
  rcases Nat.lt_trichotomy i read.length with before | rfl | after
  · simp [BearsAt,List.getElem?_append_left before,before.ne]
  · simp [BearsAt]
  · have beyond : (read ++ [element])[i]? = none := List.getElem?_eq_none (by rw [List.length_append]; exact after)
    simp [BearsAt,beyond,List.getElem?_eq_none after.le,after.ne']

theorem mem_duplicates_add (index : ReferenceIndex) (source : Nat) (element : Element) (id : String) (i : Nat) :
    (id,i) ∈ (index.add source element).duplicates ↔ (id,i) ∈ index.duplicates ∨
      (i = source ∧ identifier? element = some id ∧ (index.resolve? id).isSome = true) := by
  rcases add_cases index source element with ⟨named,_,duplicates⟩ | ⟨own,named,taken,_,duplicates⟩ |
    ⟨own,named,free,_,duplicates⟩
  · simp [named,duplicates]
  · rw [duplicates,named,List.mem_append,List.mem_singleton,Prod.mk.injEq,Option.some_inj]
    refine or_congr_right ⟨?_,?_⟩
    · rintro ⟨rfl,rfl⟩
      exact ⟨rfl,rfl,taken⟩
    · rintro ⟨rfl,rfl,_⟩
      exact ⟨rfl,rfl⟩
  · rw [duplicates,named,Option.some_inj]
    refine (or_iff_left ?_).symm
    rintro ⟨_,rfl,known⟩
    rw [free] at known
    contradiction

theorem rising_add {source : Nat} (element : Element)
    (rising : index.duplicates.Pairwise fun first second => first.2 < second.2)
    (before : ∀ entry ∈ index.duplicates, entry.2 < source) :
    (index.add source element).duplicates.Pairwise fun first second => first.2 < second.2 := by
  rcases add_cases index source element with ⟨_,_,duplicates⟩ | ⟨own,_,_,_,duplicates⟩ | ⟨_,_,_,_,duplicates⟩
  · exact duplicates ▸ rising
  · rw [duplicates,List.pairwise_append]
    refine ⟨rising,List.pairwise_singleton _ _,fun entry listed last same => ?_⟩
    rw [List.mem_singleton.mp same]
    exact before entry listed
  · exact duplicates ▸ rising

theorem idCount_add (index : ReferenceIndex) (source : Nat) (element : Element) :
    (index.add source element).idCount + (index.add source element).duplicates.length =
      index.idCount + index.duplicates.length + if (identifier? element).isSome then 1 else 0 := by
  rw [idCount,idCount]
  rcases add_cases index source element with ⟨named,owners,duplicates⟩ | ⟨own,named,_,owners,duplicates⟩ |
    ⟨own,named,_,owners,duplicates⟩
  · simp [named,owners,duplicates]
  · simp [named,owners,duplicates,Nat.add_assoc]
  · simp [named,owners,duplicates,Nat.add_right_comm]

theorem repeated_append {element : Element} {id : String} {i : Nat} :
    (BearsAt (read ++ [element]) i id ∧ ∃ first < i, BearsAt (read ++ [element]) first id) ↔
      (BearsAt read i id ∧ ∃ first < i, BearsAt read first id) ∨
        (i = read.length ∧ identifier? element = some id ∧ ∃ first, BearsAt read first id) := by
  simp only [bearsAt_append]
  constructor
  · rintro ⟨old | ⟨rfl,named⟩,first,before,earlier | ⟨rfl,_⟩⟩
    · exact Or.inl ⟨old,first,before,earlier⟩
    · exact absurd old.lt before.not_gt
    · exact Or.inr ⟨rfl,named,first,earlier⟩
    · exact absurd before (Nat.lt_irrefl _)
  · rintro (⟨old,first,before,earlier⟩ | ⟨rfl,named,first,earlier⟩)
    · exact ⟨Or.inl old,first,before,Or.inl earlier⟩
    · exact ⟨Or.inr ⟨rfl,named⟩,first,earlier.lt,Or.inl earlier⟩

/-- An index that knows the identifiers of the elements read so far. -/
structure Indexes (index : ReferenceIndex) (read : List Element) : Prop where
  resolved : ∀ id, index.resolve? id = read.findIdx? fun element => identifier? element = some id
  rising : index.duplicates.Pairwise fun first second => first.2 < second.2
  duplicates : ∀ id i, (id,i) ∈ index.duplicates ↔ BearsAt read i id ∧ ∃ first < i, BearsAt read first id
  counted : index.idCount + index.duplicates.length = read.countP fun element => (identifier? element).isSome

namespace Indexes

theorem none : ({} : ReferenceIndex).Indexes [] :=
  ⟨fun _ => rfl,List.Pairwise.nil,by simp [BearsAt],rfl⟩

theorem isLeast_iff (indexes : index.Indexes read) (id : String) (i : Nat) :
    index.resolve? id = some i ↔ IsLeast {place | BearsAt read place id} i := by
  have bears {place : Nat} (inside : place < read.length) :
      BearsAt read place id ↔ decide (identifier? read[place] = some id) = true := by
    rw [decide_eq_true_iff,identifier?_eq_some_iff]
    simp [BearsAt,List.getElem?_eq_getElem inside]
  rw [indexes.resolved,List.findIdx?_eq_some_iff_getElem]
  constructor
  · intro ⟨inside,named,earlier⟩
    refine ⟨(bears inside).mpr named,fun place owner => ?_⟩
    by_contra before
    exact earlier place (by omega) ((bears owner.lt).mp owner)
  · intro ⟨owner,least⟩
    refine ⟨owner.lt,(bears owner.lt).mp owner,fun place before named => ?_⟩
    exact absurd (least ((bears (before.trans owner.lt)).mpr named)) before.not_ge

theorem isSome_resolve?_iff (indexes : index.Indexes read) (id : String) :
    (index.resolve? id).isSome = true ↔ ∃ i, BearsAt read i id := by
  rw [indexes.resolved,List.findIdx?_isSome,List.any_eq_true]
  constructor
  · intro ⟨element,member,named⟩
    obtain ⟨i,found⟩ := List.mem_iff_getElem?.mp member
    exact ⟨i,element,found,identifier?_eq_some_iff.mp (of_decide_eq_true named)⟩
  · intro ⟨i,element,found,named⟩
    exact ⟨element,List.mem_of_getElem? found,decide_eq_true (identifier?_eq_some_iff.mpr named)⟩

theorem add (indexes : index.Indexes read) (element : Element) :
    (index.add read.length element).Indexes (read ++ [element]) where
  resolved id := by
    rw [resolve?_add,indexes.resolved,List.findIdx?_append]
    by_cases named : identifier? element = some id <;> simp [named]
  rising := rising_add element indexes.rising fun entry listed => ((indexes.duplicates _ _).mp listed).1.lt
  duplicates id i := by
    rw [mem_duplicates_add,indexes.duplicates,indexes.isSome_resolve?_iff,repeated_append]
  counted := by
    rw [idCount_add,indexes.counted,List.countP_append,List.countP_singleton]

theorem addAll (indexes : index.Indexes read) (rest : List Element) :
    ((rest.zipIdx read.length).foldl (fun index entry => index.add entry.2 entry.1) index).Indexes (read ++ rest) := by
  induction rest generalizing read index with
  | nil => simpa using indexes
  | cons element rest ih =>
    have next := ih (indexes.add element)
    rw [List.append_assoc,List.length_append] at next
    exact next

end Indexes

def writtenAt (kind : ReferenceKind) (element : Element) (source : Nat) : List Reference :=
  match element.value? kind.attributeName with
  | some value => (kind.written value).map fun target => ⟨kind,source,target,isDynamic value⟩
  | none => []

theorem referencesOf_eq_written (source : Nat) (element : Element) :
    referencesOf source element = ReferenceKind.all.flatMap fun kind => writtenAt kind element source := by
  refine congrArg ReferenceKind.all.flatMap (funext fun kind => ?_)
  rw [writtenAt]
  cases element.value? kind.attributeName with
  | none => rfl
  | some value => exact congrArg (List.map _) (kind.targets_eq_written value)

theorem kind_of_mem_writtenAt {kind : ReferenceKind} {element : Element} {source : Nat} {reference : Reference}
    (made : reference ∈ writtenAt kind element source) : reference.kind = kind := by
  rw [writtenAt] at made
  split at made
  · obtain ⟨_,_,rfl⟩ := List.mem_map.mp made
    rfl
  · contradiction

theorem filter_referencesOf (kind : ReferenceKind) (element : Element) (source : Nat) :
    (referencesOf source element).filter (·.kind == kind) = writtenAt kind element source := by
  have single (other : ReferenceKind) : (writtenAt other element source).filter (·.kind == kind) =
      if other = kind then writtenAt kind element source else [] := by
    by_cases same : other = kind
    · rw [if_pos same,same]
      exact List.filter_eq_self.mpr fun reference made => beq_iff_eq.mpr (kind_of_mem_writtenAt made)
    · rw [if_neg same]
      refine List.filter_eq_nil_iff.mpr fun reference made => ?_
      rwa [kind_of_mem_writtenAt made,beq_iff_eq]
  rw [referencesOf_eq_written,List.filter_flatMap]
  simp only [single]
  cases kind <;> simp [ReferenceKind.all]

theorem ofKind_build (elements : List Element) (kind : ReferenceKind) : (build elements).ofKind kind =
    elements.zipIdx.flatMap fun entry => writtenAt kind entry.1 entry.2 := by
  rw [ofKind,references_build,List.filter_flatMap]
  simp only [filter_referencesOf]

theorem isDynamic_of_dynamic {elements : List Element} {kind : ReferenceKind} {reference : Reference}
    (listed : reference ∈ (build elements).ofKind kind) (dynamic : reference.dynamic = true) :
    isDynamic reference.target = true := by
  rw [ofKind_build] at listed
  obtain ⟨entry,_,made⟩ := List.mem_flatMap.mp listed
  rw [writtenAt] at made
  split at made
  next value written =>
    obtain ⟨target,named,rfl⟩ := List.mem_map.mp made
    rw [ReferenceKind.written,if_pos (Or.inr dynamic)] at named
    rw [List.mem_singleton.mp (List.mem_of_mem_filter named)]
    exact isDynamic_trim dynamic
  next => contradiction

theorem mem_referrersOf_iff (elements : List Element) (kind : ReferenceKind) (i : Nat) {id : String}
    (static : isDynamic id = false) :
    i ∈ (build elements).referrersOf id kind ↔ id ∈ (build elements).targetsOf i kind := by
  rw [referrersOf,targetsOf,List.mem_map,List.mem_map]
  constructor
  · rintro ⟨reference,listed,rfl⟩
    obtain ⟨known,same⟩ := List.mem_filter.mp listed
    obtain rfl := beq_iff_eq.mp same
    have fixed : reference.dynamic = false := Bool.eq_false_iff.mpr fun dynamic =>
      absurd (isDynamic_of_dynamic known dynamic) (Bool.eq_false_iff.mp static)
    exact ⟨reference,List.mem_filter.mpr ⟨known,by simp [fixed]⟩,rfl⟩
  · rintro ⟨reference,listed,rfl⟩
    obtain ⟨known,own⟩ := List.mem_filter.mp listed
    exact ⟨reference,List.mem_filter.mpr ⟨known,beq_self_eq_true _⟩,
      beq_iff_eq.mp (Bool.and_eq_true_iff.mp own).1⟩

/-- An index that says what is written in the elements. -/
structure Faithful (index : ReferenceIndex) (elements : List Element) : Prop where
  resolved : ∀ id i, index.resolve? id = some i ↔ IsLeast {place | BearsAt elements place id} i
  unresolved : ∀ id, index.resolve? id = none ↔ ∀ i, ¬BearsAt elements i id
  rising : index.duplicates.Pairwise fun first second => first.2 < second.2
  duplicates : ∀ id i, (id,i) ∈ index.duplicates ↔ BearsAt elements i id ∧ ∃ first < i, BearsAt elements first id
  counted : index.idCount + index.duplicates.length =
    elements.countP fun element => (element.value? "id").any fun id => !blankString id
  references : ∀ kind, index.ofKind kind = elements.zipIdx.flatMap fun entry => writtenAt kind entry.1 entry.2
  /-- Who refers to an identifier that no template makes, and what an element refers to, are the same references. -/
  inverse : ∀ kind i id, isDynamic id = false → (i ∈ index.referrersOf id kind ↔ id ∈ index.targetsOf i kind)

theorem faithful_build (elements : List Element) : (build elements).Faithful elements := by
  have indexes := Indexes.none.addAll elements
  rw [List.nil_append] at indexes
  refine ⟨indexes.isLeast_iff,fun id => ?_,indexes.rising,indexes.duplicates,?_,ofKind_build elements,
    fun kind i id static => mem_referrersOf_iff elements kind i static⟩
  · rw [← not_exists]
    exact Option.not_isSome_iff_eq_none.symm.trans (indexes.isSome_resolve?_iff id).not
  · refine indexes.counted.trans (List.countP_congr fun element _ => ?_)
    rw [identifier?]
    cases element.value? "id" <;> simp [Option.filter]

end ReferenceIndex
end AccessibleMarkup
