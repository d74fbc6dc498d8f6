import AccessibleMarkup.Proofs.OutlineForest
import AccessibleMarkup.Proofs.TagPlaces
import AccessibleMarkup.Rules.Basic
import Mathlib.Tactic.SplitIfs

/-! Documents whose links lead to their elements. Every document that is read from a text is one. No read by
index that starts from a link or from an entry of the reference index is out of range there, so the checked
reads have results, and these are what the plain functions of the document say. -/
namespace AccessibleMarkup

open Markup Text

namespace ReferenceIndex

/-- What the index of some elements knows comes from one of them. -/
structure Sound (elements : List Element) (index : ReferenceIndex) : Prop where
  owner : ∀ id i, index.owners.lookup id = some i →
    ∃ element, elements[i]? = some element ∧ identifier? element = some id
  duplicate : ∀ id i, (id,i) ∈ index.duplicates →
    ∃ element, elements[i]? = some element ∧ identifier? element = some id
  reference : ∀ reference ∈ index.references, ∃ element, elements[reference.source]? = some element ∧
    reference ∈ referencesOf reference.source element

theorem Sound.add {elements : List Element} {index : ReferenceIndex} (sound : Sound elements index)
    (i : Nat) (element : Element) (here : elements[i]? = some element) :
    Sound elements (index.add i element) := by
  have references : ∀ reference ∈ index.references ++ referencesOf i element,
      ∃ owner, elements[reference.source]? = some owner ∧
        reference ∈ referencesOf reference.source owner := by
    intro reference member
    rcases List.mem_append.mp member with known | new
    · exact sound.reference reference known
    · have source : reference.source = i := by
        simp only [referencesOf,List.mem_flatMap] at new
        obtain ⟨kind,_,inside⟩ := new
        split at inside
        · obtain ⟨target,_,rfl⟩ := List.mem_map.mp inside
          rfl
        · contradiction
      exact ⟨element,by rw [source,here],by rw [source]; exact new⟩
  unfold ReferenceIndex.add
  split
  next anonymous => exact ⟨sound.owner,sound.duplicate,references⟩
  next id named =>
    split_ifs with taken
    · refine ⟨sound.owner,fun found j member => ?_,references⟩
      rcases List.mem_append.mp member with known | new
      · exact sound.duplicate found j known
      · obtain ⟨rfl,rfl⟩ := Prod.mk.inj (List.mem_singleton.mp new)
        exact ⟨element,here,named⟩
    · refine ⟨fun found j owned => ?_,sound.duplicate,references⟩
      rw [List.lookup_append] at owned
      rcases Option.or_eq_some_iff.mp owned with known | ⟨_,new⟩
      · exact sound.owner found j known
      · rw [List.lookup_cons,List.lookup_nil] at new
        split at new
        next same =>
          obtain rfl := Option.some.inj new
          rw [beq_iff_eq] at same
          exact ⟨element,here,by rw [same,named]⟩
        next other => contradiction

theorem build_sound (elements : List Element) : Sound elements (build elements) := by
  have folded (entries : List (Element × Nat)) (index : ReferenceIndex) (sound : Sound elements index)
      (places : ∀ entry ∈ entries, elements[entry.2]? = some entry.1) :
      Sound elements (entries.foldl (fun index entry => index.add entry.2 entry.1) index) := by
    induction entries generalizing index with
    | nil => exact sound
    | cons entry rest ih =>
      have next := sound.add entry.2 entry.1 (places entry List.mem_cons_self)
      exact ih _ next fun other member => places other (List.mem_cons_of_mem _ member)
  refine folded _ {} ⟨by simp,by simp,by simp⟩ ?_
  rintro ⟨element,i⟩ member
  exact List.mem_zipIdx_iff_getElem?.mp member

end ReferenceIndex

namespace Document

/-- The links of a document lead to its elements, those to parents to elements that stand before. -/
structure Linked (doc : Document) : Prop where
  parents : ∀ i parent : Nat, (doc.elements[i]?).bind (·.parent) = some parent → parent < i
  index : doc.index.Sound doc.elements

theorem read_linked (source : List Char) (filter : MarkupFilter) : (Document.read source filter).Linked := by
  refine ⟨fun i parent link => ?_,ReferenceIndex.build_sound _⟩
  rw [Document.read,parent_of_elements] at link
  exact (Encloses.parent link).lt (outlineNodes_forest _)

variable {doc : Document} {i : Nat}

theorem mem_indexed (doc : Document) (element : Element) (i : Nat)
    (member : (element,i) ∈ doc.indexed) : doc.elements[i]? = some element :=
  List.mem_zipIdx_iff_getElem?.mp member

theorem lt_of_indexed {element : Element} (member : (element,i) ∈ doc.indexed) : i < doc.elements.length :=
  (List.getElem?_eq_some_iff.mp (doc.mem_indexed element i member)).1

theorem lt_of_indicesWhere {condition : Element → Bool} (member : i ∈ doc.indicesWhere condition) :
    i < doc.elements.length := by
  obtain ⟨⟨element,j⟩,kept,rfl⟩ := List.mem_map.mp member
  exact lt_of_indexed (List.mem_filter.mp kept).1

theorem lt_of_descendants {outer : Nat} (member : i ∈ doc.descendants outer) : i < doc.elements.length := by
  unfold descendants at member
  split at member
  · contradiction
  · obtain ⟨⟨element,j⟩,kept,rfl⟩ := List.mem_map.mp member
    exact lt_of_indexed (List.mem_of_mem_drop ((List.takeWhile_sublist _).mem kept))

theorem lt_of_groupMembers {container : Nat} {members containers : List String}
    (member : i ∈ doc.groupMembers container members containers) : i < doc.elements.length :=
  lt_of_descendants (List.mem_filter.mp (List.mem_filter.mp member).1).1

theorem Linked.lt_of_parent {parent : Nat} (linked : doc.Linked)
    (link : (doc.elements[i]?).bind (·.parent) = some parent) : parent < doc.elements.length := by
  obtain ⟨element,found,_⟩ := Option.bind_eq_some_iff.mp link
  exact Nat.lt_trans (linked.parents i parent link) (List.getElem?_eq_some_iff.mp found).1

theorem Linked.before_of_ancestors {inner : Nat} (linked : doc.Linked) (member : i ∈ doc.ancestors inner) :
    i < inner := by
  have within (steps inner : Nat) (member : i ∈ ancestorsWithin doc.elements steps inner) : i < inner := by
    induction steps generalizing inner with
    | zero => contradiction
    | succ steps ih =>
      rw [ancestorsWithin] at member
      split at member
      next parent link =>
        have below := linked.parents inner parent link
        rcases List.mem_cons.mp member with rfl | further
        · exact below
        · exact Nat.lt_trans (ih parent further) below
      next => contradiction
  exact within _ inner member

theorem ancestors_of_not_lt (outside : ¬i < doc.elements.length) : doc.ancestors i = [] := by
  unfold ancestors
  cases doc.elements.length with
  | zero => rfl
  | succ steps =>
    rw [ancestorsWithin,List.getElem?_eq_none (Nat.le_of_not_lt outside)]
    rfl

theorem Linked.lt_of_ancestors {inner : Nat} (linked : doc.Linked) (member : i ∈ doc.ancestors inner) :
    i < doc.elements.length := by
  have below := linked.before_of_ancestors member
  by_cases inside : inner < doc.elements.length
  · exact Nat.lt_trans below inside
  · rw [ancestors_of_not_lt inside] at member
    contradiction

theorem lt_of_resolve {id : String} {element : Element} (found : doc.resolve? id = some (i,element)) :
    i < doc.elements.length := by
  obtain ⟨j,_,present⟩ := Option.bind_eq_some_iff.mp found
  obtain ⟨other,here,same⟩ := Option.map_eq_some_iff.mp present
  obtain ⟨rfl,rfl⟩ := Prod.mk.inj same
  exact (List.getElem?_eq_some_iff.mp here).1

theorem Linked.lt_of_reference (linked : doc.Linked) {reference : Reference}
    (member : reference ∈ doc.index.references) : reference.source < doc.elements.length := by
  obtain ⟨element,found,_⟩ := linked.index.reference reference member
  exact (List.getElem?_eq_some_iff.mp found).1

theorem Linked.lt_of_duplicate (linked : doc.Linked) {id : String} (member : (id,i) ∈ doc.index.duplicates) :
    i < doc.elements.length := by
  obtain ⟨element,found,_⟩ := linked.index.duplicate id i member
  exact (List.getElem?_eq_some_iff.mp found).1

end Document

namespace Checked

variable {α β : Type} {items : List α}

theorem mem_of_answer {answer : Checked (List α)} (answered : answer = some items) {item : α}
    (member : item ∈ answer.getD []) : item ∈ items := by
  rwa [answered] at member

theorem filterM_eq {test : α → Checked Bool} {keep : α → Bool} (tested : ∀ item ∈ items, test item = some (keep item)) :
    items.filterM test = some (items.filter keep) := by
  have kept (before : List α) :
      items.filterAuxM test before = some ((items.filter keep).reverse ++ before) := by
    induction items generalizing before with
    | nil => rfl
    | cons item rest ih =>
      have further := ih fun other later => tested other (List.mem_cons_of_mem _ later)
      rw [List.filterAuxM,tested item List.mem_cons_self]
      cases here : keep item <;> simp [further,here]
  rw [List.filterM,kept]
  simp

theorem filterMapM_eq {judge : α → Checked (Option β)} {verdict : α → Option β}
    (judged : ∀ item ∈ items, judge item = some (verdict item)) :
    items.filterMapM judge = some (items.filterMap verdict) := by
  have found (before : List β) :
      List.filterMapM.loop judge items before = some (before.reverse ++ items.filterMap verdict) := by
    induction items generalizing before with
    | nil => simp [List.filterMapM.loop]
    | cons item rest ih =>
      have further := ih fun other later => judged other (List.mem_cons_of_mem _ later)
      rw [List.filterMapM.loop,judged item List.mem_cons_self]
      cases here : verdict item <;> simp [further,here]
  rw [List.filterMapM,found]
  rfl

theorem mapM_eq {read : α → Checked β} {value : α → β} (valued : ∀ item ∈ items, read item = some (value item)) :
    items.mapM read = some (items.map value) := by
  induction items with
  | nil => rfl
  | cons item rest ih =>
    rw [List.mapM_cons,valued item List.mem_cons_self,ih fun other later => valued other (List.mem_cons_of_mem _ later)]
    rfl

theorem anyM_eq {test : α → Checked Bool} {holds : α → Bool} (tested : ∀ item ∈ items, test item = some (holds item)) :
    items.anyM test = some (items.any holds) := by
  induction items with
  | nil => rfl
  | cons item rest ih =>
    have further := ih fun other later => tested other (List.mem_cons_of_mem _ later)
    rw [List.anyM,tested item List.mem_cons_self]
    cases here : holds item <;> simp [further,here]

theorem fetchSplit_append (first second : List Char) {start offset : Nat} (here : offset = start + byteLength first) :
    fetchSplit (first ++ second) start offset = some (first,second) := by
  subst here
  rw [fetchSplit,if_pos (Nat.le_add_right _ _),Nat.add_sub_cancel_left,splitAt?_append]

theorem fetchBetween_eq {text : List Char} (read rest : List Char) (tags : List Tag) (parts : text = read ++ rest)
    (ordered : TagsInOrder (byteLength text) (byteLength read) tags) (found : ∀ tag ∈ tags, tag ∈ lex text) :
    fetchBetween (byteLength read) tags rest = some (textBetween (byteLength read) tags rest) := by
  induction tags generalizing read rest with
  | nil => rfl
  | cons tag tags ih =>
    obtain ⟨⟨following,_⟩,later⟩ := ordered
    obtain ⟨front,after,whole,ends,_⟩ := lex_standsIn text tag (found tag List.mem_cons_self)
    obtain ⟨inner,before,rfl,start⟩ := ends.opens
    rw [List.append_assoc] at whole
    obtain ⟨middle,rfl,rfl⟩ := append_of_byteLength_le (parts.symm.trans whole) (start ▸ following)
    have stop : tag.stop = tag.start + byteLength ('<' :: inner) := by
      rw [ends.stop,byteLength_append,start]
    have reached : tag.start = byteLength read + byteLength middle := by
      rw [← start,byteLength_append]
    have further := ih (read ++ middle ++ '<' :: inner) after (by rw [whole]; simp) (ends.stop ▸ later)
      fun other member => found other (List.mem_cons_of_mem _ member)
    rw [← ends.stop] at further
    have outside := fetchSplit_append middle (('<' :: inner) ++ after) reached
    have inside := fetchSplit_append ('<' :: inner) after stop
    have split := splitAt?_append middle (('<' :: inner) ++ after)
    have dropped : dropBytes (('<' :: inner) ++ after) (tag.stop - tag.start) = after := by
      rw [dropBytes,stop,Nat.add_sub_cancel_left,splitAt?_append]
      rfl
    have here : tag.start - byteLength read = byteLength middle := by omega
    rw [fetchBetween,textBetween,outside,here,split]
    simp only [bind,Option.bind_some,inside,further,dropped]
    rfl

end Checked

namespace Document

variable {doc : Document} {i : Nat}

theorem meets_eq (inside : i < doc.elements.length) (condition : Element → Bool) :
    doc.meets condition i = some (doc.holdsAt condition i) := by
  simp [meets,fetch,holdsAt,List.getElem?_eq_getElem inside]

namespace Linked

/-- A climb from a parent passes the ancestors, as each of them stands before the one that it was reached
from. -/
theorem climb_eq {α : Type} (linked : doc.Linked) (search : Nat → Element → Option α) (steps i : Nat)
    (enough : ∀ parent, (doc.elements[i]?).bind (·.parent) = some parent → parent < steps) :
    doc.climb search steps ((doc.elements[i]?).bind (·.parent)) =
      some ((ancestorsWithin doc.elements steps i).findSome? fun outer =>
        (doc.elements[outer]?).bind (search outer)) := by
  induction steps generalizing i with
  | zero =>
    cases link : (doc.elements[i]?).bind (·.parent) with
    | none => rfl
    | some parent => exact absurd (enough parent link) (Nat.not_lt_zero _)
  | succ steps ih =>
    rw [ancestorsWithin]
    cases link : (doc.elements[i]?).bind (·.parent) with
    | none => rfl
    | some parent =>
      have inside := linked.lt_of_parent link
      have found := List.getElem?_eq_getElem inside
      have above : ∀ next, (doc.elements[parent]?).bind (·.parent) = some next → next < steps := by
        intro next further
        have first := enough parent link
        have second := linked.parents parent next further
        omega
      have rest := ih parent above
      rw [found,Option.bind_some] at rest
      rw [climb,fetch,found]
      simp only [bind,Option.bind_some,List.findSome?_cons,found]
      cases search parent doc.elements[parent] with
      | some found => rfl
      | none => exact rest

theorem fetchAround_eq {α : Type} (linked : doc.Linked) (i : Nat) (search : Nat → Element → Option α) :
    doc.fetchAround i search =
      some ((doc.ancestors i).findSome? fun outer => (doc.elements[outer]?).bind (search outer)) :=
  linked.climb_eq search _ i fun _ link => linked.lt_of_parent link

theorem fetchNearest_eq (linked : doc.Linked) (i : Nat) (condition : Element → Bool) :
    doc.fetchNearest i condition = some ((doc.ancestors i).find? (doc.holdsAt condition)) := by
  have same : (fun outer => (doc.elements[outer]?).bind fun element =>
      if condition element then some outer else none) = Option.guard (doc.holdsAt condition) := by
    funext outer
    cases found : doc.elements[outer]? <;> simp [Option.guard,holdsAt,found]
  rw [fetchNearest,linked.fetchAround_eq,same,List.find?_eq_findSome?_guard]

theorem fetchMembers_eq (linked : doc.Linked) (container : Nat) (members containers : List String) :
    doc.fetchMembers container members containers = some (doc.groupMembers container members containers) := by
  rw [groupMembers,List.filter_filter]
  refine Checked.filterM_eq fun i descends => ?_
  rw [meets_eq (lt_of_descendants descends),linked.fetchNearest_eq]
  cases held : doc.holdsAt (·.hasRoleIn members) i <;> simp [nearestWithRole?]

theorem fetchOwner_eq (linked : doc.Linked) (id : String) : doc.fetchOwner id = some (doc.resolve? id) := by
  unfold fetchOwner resolve?
  cases owned : doc.index.resolve? id with
  | none => rfl
  | some i =>
    obtain ⟨element,found,_⟩ := linked.index.owner id i owned
    simp [fetch,found]

end Linked

theorem indicesWhere_and (doc : Document) (first second : Element → Bool) :
    doc.indicesWhere (fun element => first element && second element) =
      (doc.indicesWhere first).filter (doc.holdsAt second) := by
  unfold indicesWhere
  rw [List.filter_map,List.filter_filter]
  refine congrArg (List.map _) (List.filter_congr fun entry member => ?_)
  have found := List.mem_zipIdx_iff_getElem?.mp member
  simp [holdsAt,found,Bool.and_comm]

theorem filterM_meets {items : List Nat} (inside : ∀ i ∈ items, i < doc.elements.length)
    (condition : Element → Bool) : items.filterM (doc.meets condition) = some (items.filter (doc.holdsAt condition)) :=
  Checked.filterM_eq fun i member => meets_eq (inside i member) condition

theorem anyM_meets {items : List Nat} (inside : ∀ i ∈ items, i < doc.elements.length) (condition : Element → Bool) :
    items.anyM (doc.meets condition) = some (items.any (doc.holdsAt condition)) :=
  Checked.anyM_eq fun i member => meets_eq (inside i member) condition

theorem filterM_withRole (doc : Document) (role : String) (condition : Element → Bool) :
    (doc.withRole role).filterM (doc.meets condition) =
      some (doc.indicesWhere fun element => element.hasRole role && condition element) := by
  rw [indicesWhere_and]
  exact filterM_meets (fun _ => lt_of_indicesWhere) condition

theorem fetchInnerText_eq (doc : Document) (i : Nat) : doc.fetchInnerText i = some (doc.innerText i) := by
  unfold fetchInnerText innerText
  cases doc.elements[i]? with
  | none => rfl
  | some element =>
    rw [Option.bind_some]
    dsimp only
    rw [Element.innerText]
    cases element.content? doc.text with
    | none => rfl
    | some content =>
      have cut := Checked.fetchBetween_eq [] content (lex content) rfl (lex_inOrder content) fun _ member => member
      dsimp only
      rw [byteLength_nil] at cut
      rw [cut]
      rfl

end Document

end AccessibleMarkup
