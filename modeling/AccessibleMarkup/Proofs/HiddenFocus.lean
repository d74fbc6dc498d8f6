import AccessibleMarkup.Proofs.FaultlessRules
import AccessibleMarkup.Proofs.RoleGroups

/-! What the keyboard reaches inside content that is hidden from assistive technology. Hiding is judged at the outermost
element that hides, whose ancestors hide nothing, so two reports never stand in one another. -/
namespace AccessibleMarkup

open Text Markup

namespace Document

variable {source : List Char} {filter : Filter} {i j outer : Nat}

theorem not_mem_ancestors_self : i ∉ (read source filter).ancestors i :=
  fun member => Nat.lt_irrefl i (lt_of_ancestors member)

theorem holdsAt_eq {doc : Document} {condition : Element → Bool} {element : Element}
    (found : doc.elements[i]? = some element) : doc.holdsAt condition i = condition element := by
  rw [holdsAt,found,Option.any_some]

theorem mem_takeWhile_ancestors (inside : outer ∈ (read source filter).ancestors i) :
    j ∈ ((read source filter).ancestors i).takeWhile (· != outer) ↔
      j ∈ (read source filter).ancestors i ∧ outer ∈ (read source filter).ancestors j := by
  obtain ⟨front,back,parts⟩ := List.append_of_mem inside
  have rest := ancestors_split parts
  have before : ∀ inner ∈ front, outer ∈ (read source filter).ancestors inner := by
    intro inner member
    obtain ⟨first,second,rfl⟩ := List.append_of_mem member
    rw [List.append_assoc,List.cons_append] at parts
    rw [← ancestors_split parts]
    simp
  have run : ((read source filter).ancestors i).takeWhile (· != outer) = front := by
    rw [parts,List.takeWhile_append_of_pos,List.takeWhile_cons_of_neg (by simp),List.append_nil]
    intro inner member
    rw [bne_iff_ne]
    intro same
    exact not_mem_ancestors_self (same ▸ before inner member)
  rw [run]
  constructor
  · intro member
    exact ⟨parts ▸ List.mem_append_left _ member,before j member⟩
  · intro ⟨member,within⟩
    rw [parts] at member
    rcases List.mem_append.mp member with first | later
    · exact first
    · rcases List.mem_cons.mp later with same | further
      · exact absurd (same ▸ within) not_mem_ancestors_self
      · exact absurd (ancestors_trans within (rest ▸ further)) not_mem_ancestors_self

end Document

namespace Rules.HiddenFocusable

variable {source : List Char} {filter : Filter} {i hider : Nat}

/-- The outermost of an element and the elements around it that is hidden from assistive technology. -/
def outermostHidden? (doc : Document) (i : Nat) : Option Nat :=
  ((i :: doc.ancestors i).filter (doc.holdsAt (·.isAriaHidden))).getLast?

/-- An element that the keyboard reaches although it is hidden from assistive technology, and the outermost element
that hides it and can be judged. -/
structure Exposes (doc : Document) (hider i : Nat) : Prop where
  outermost : outermostHidden? doc i = some hider
  reachable : doc.holdsAt (fun element =>
    element.isFocusable && !element.has "hidden" && !element.hasHidingStyle) i = true
  active : doc.holdsAt (fun element => !element.has "inert") hider = true
  judged : doc.holdsAt (fun element => element.isKnown || isReachable element) hider = true
  unshielded : ∀ between ∈ doc.ancestors i, hider ∈ doc.ancestors between →
    doc.holdsAt (fun element => element.has "inert" || element.has "hidden") between = false

def reported (head : RuleHead) (doc : Document) : List Nat :=
  (doc.indexed.filter fun entry => (judge? head doc entry).isSome).map (·.2)

/-- A violation stands at the attribute that hides the element. -/
def StandsAtHiding (doc : Document) (hider : Nat) (violation : Violation) : Prop :=
  ∃ found, (doc.elements[hider]?).bind (·.attribute? "aria-hidden") = some found ∧
    violation.location = doc.location found.range.start found.range.stop

theorem outermostHidden?_eq_some_iff : outermostHidden? (Document.read source filter) i = some hider ↔
    (hider = i ∨ hider ∈ (Document.read source filter).ancestors i) ∧
      (Document.read source filter).holdsAt (·.isAriaHidden) hider = true ∧
      ∀ around ∈ (Document.read source filter).ancestors hider,
        (Document.read source filter).holdsAt (·.isAriaHidden) around = false := by
  rw [outermostHidden?,getLast?_filter_eq_some_iff]
  constructor
  · intro ⟨hidden,front,back,parts,others⟩
    cases front with
    | nil =>
      obtain ⟨rfl,rest⟩ := List.cons.inj parts
      exact ⟨Or.inl rfl,hidden,rest ▸ others⟩
    | cons first front =>
      obtain ⟨_,rest⟩ := List.cons.inj parts
      exact ⟨Or.inr (by rw [rest]; simp),hidden,Document.ancestors_split rest ▸ others⟩
  · intro ⟨place,hidden,others⟩
    refine ⟨hidden,?_⟩
    rcases place with rfl | inside
    · exact ⟨[],_,rfl,others⟩
    · obtain ⟨front,back,parts⟩ := List.append_of_mem inside
      exact ⟨i :: front,back,by rw [parts]; rfl,Document.ancestors_split parts ▸ others⟩

theorem isOutermostHider_iff {doc : Document} {element : Element} : isOutermostHider doc element i = true ↔
    element.isAriaHidden = true ∧ element.has "inert" = false ∧
      ∀ around ∈ doc.ancestors i, doc.holdsAt (·.isAriaHidden) around = false := by
  simp [isOutermostHider,and_assoc]

theorem mem_reachableIn : i ∈ reachableIn (Document.read source filter) hider ↔
    hider ∈ (Document.read source filter).ancestors i ∧ (Document.read source filter).holdsAt isReachable i = true ∧
      ∀ between ∈ (Document.read source filter).ancestors i, hider ∈ (Document.read source filter).ancestors between →
        (Document.read source filter).holdsAt (fun element => element.has "inert" || element.has "hidden") between =
          false := by
  rw [reachableIn,List.mem_filter,List.mem_filter,Document.mem_descendants,← Document.mem_ancestors,and_assoc]
  refine and_congr_right fun inside => and_congr_right fun _ => ?_
  rw [isShielded,Bool.not_eq_true',List.any_eq_false]
  simp only [Document.mem_takeWhile_ancestors inside,Bool.not_eq_true,and_imp]

theorem isSome_reportContent? (head : RuleHead) (doc : Document) (hider : Nat) (reachable : List Nat) :
    (reportContent? head doc hider reachable).isSome = true ↔ ∃ i, i ∈ reachable := by
  unfold reportContent?
  dsimp only
  rw [Option.isSome_map,List.isSome_head?]
  exact ⟨List.exists_mem_of_ne_nil _,fun ⟨i,member⟩ => List.ne_nil_of_mem member⟩

theorem isSome_judge? (head : RuleHead) (doc : Document) (element : Element) (i : Nat) :
    (judge? head doc (element,i)).isSome = true ↔ isOutermostHider doc element i = true ∧
      (isReachable element = true ∨ element.isKnown = true ∧ ∃ inner, inner ∈ reachableIn doc i) := by
  rw [judge?]
  cases isOutermostHider doc element i with
  | false => simp
  | true =>
    cases isReachable element with
    | true => simp
    | false =>
      cases element.isKnown with
      | false => simp
      | true => simp [isSome_reportContent?]

theorem mem_reported {head : RuleHead} {doc : Document} : i ∈ reported head doc ↔
    ∃ element, doc.elements[i]? = some element ∧ (judge? head doc (element,i)).isSome = true := by
  simp [reported,Document.indexed,List.mem_zipIdx_iff_getElem?]

theorem mem_reported_iff (head : RuleHead) : hider ∈ reported head (Document.read source filter) ↔
    ∃ i, Exposes (Document.read source filter) hider i := by
  rw [mem_reported]
  constructor
  · intro ⟨element,found,judged⟩
    obtain ⟨outermost,reason⟩ := (isSome_judge? _ _ _ _).mp judged
    obtain ⟨hidden,active,outside⟩ := isOutermostHider_iff.mp outermost
    have here : (Document.read source filter).holdsAt (fun element => !element.has "inert") hider = true := by
      rw [Document.holdsAt_eq found,active]
      rfl
    rcases reason with itself | ⟨known,inner,member⟩
    · refine ⟨hider,outermostHidden?_eq_some_iff.mpr ⟨Or.inl rfl,(Document.holdsAt_eq found).trans hidden,outside⟩,
        (Document.holdsAt_eq found).trans itself,here,?_,fun between member within => ?_⟩
      · rw [Document.holdsAt_eq found,itself,Bool.or_true]
      · exact absurd (Document.ancestors_trans within member) Document.not_mem_ancestors_self
    · obtain ⟨inside,reachable,unshielded⟩ := mem_reachableIn.mp member
      refine ⟨inner,outermostHidden?_eq_some_iff.mpr ⟨Or.inr inside,(Document.holdsAt_eq found).trans hidden,outside⟩,
        reachable,here,?_,unshielded⟩
      rw [Document.holdsAt_eq found,known,Bool.true_or]
  · intro ⟨i,exposed⟩
    obtain ⟨place,hidden,outside⟩ := outermostHidden?_eq_some_iff.mp exposed.outermost
    obtain ⟨element,found,marked⟩ := Document.holdsAt_some _ _ _ hidden
    have active := exposed.active
    have judged := exposed.judged
    rw [Document.holdsAt_eq found] at active judged
    refine ⟨element,found,(isSome_judge? _ _ _ _).mpr
      ⟨isOutermostHider_iff.mpr ⟨marked,by simpa using active,outside⟩,?_⟩⟩
    rcases place with rfl | inside
    · exact Or.inl ((Document.holdsAt_eq found).symm.trans exposed.reachable)
    · rcases Bool.or_eq_true_iff.mp judged with known | itself
      · exact Or.inr ⟨known,i,mem_reachableIn.mpr ⟨inside,exposed.reachable,exposed.unshielded⟩⟩
      · exact Or.inl itself

theorem judge?_location {head : RuleHead} {doc : Document} {entry : Element × Nat} {violation : Violation}
    (made : judge? head doc entry = some violation) :
    violation.location = doc.attributeLocation entry.2 "aria-hidden" := by
  rw [judge?] at made
  split at made
  next => contradiction
  next =>
    split at made
    next itself => rw [← Option.some.inj made]; rfl
    next =>
      split at made
      next known =>
        obtain ⟨first,_,rfl⟩ := Option.map_eq_some_iff.mp made
        rfl
      next => contradiction

theorem standsAtHiding_of_judge? {head : RuleHead} {doc : Document} {element : Element} {violation : Violation}
    (found : doc.elements[i]? = some element) (made : judge? head doc (element,i) = some violation) :
    StandsAtHiding doc i violation := by
  have judged : (judge? head doc (element,i)).isSome = true := by rw [made]; rfl
  have hidden := (isOutermostHider_iff.mp ((isSome_judge? _ _ _ _).mp judged).1).1
  obtain ⟨attr,written⟩ := Option.isSome_iff_exists.mp (element.has_of_isAriaHidden hidden)
  have present : (doc.elements[i]?).bind (·.attribute? "aria-hidden") = some attr := by
    rw [found,Option.bind_some]
    exact written
  refine ⟨attr,present,?_⟩
  rw [judge?_location made,Document.attributeLocation,present]

theorem check_stands (head : RuleHead) (doc : Document) :
    List.Forall₂ (StandsAtHiding doc) (reported head doc) (check head doc) := by
  have kept : check head doc =
      (doc.indexed.filter fun entry => (judge? head doc entry).isSome).filterMap (judge? head doc) := by
    rw [check,List.filterMap_filter]
    refine List.filterMap_congr fun entry _ => ?_
    cases judge? head doc entry <;> rfl
  rw [kept,reported,List.forall₂_map_left_iff]
  refine forall₂_filterMap _ fun entry member => ?_
  obtain ⟨listed,judged⟩ := List.mem_filter.mp member
  obtain ⟨violation,made⟩ := Option.isSome_iff_exists.mp judged
  exact ⟨violation,made,standsAtHiding_of_judge? (doc.mem_indexed _ _ listed) made⟩

/-- Whatever the keyboard reaches though it is hidden is reported once: no reported element stands in another, and the
outermost element that hides it, where it can be judged, has a violation at the attribute that does. -/
theorem hidden_focus_reported_once (head : RuleHead) (source : List Char) (filter : Filter) :
    let doc := Document.read source filter
    ∃ found, run head doc = some found ∧
    List.Forall₂ (StandsAtHiding doc) (reported head doc) found ∧
    (reported head doc).Pairwise (· < ·) ∧
    (∀ i ∈ reported head doc, ∀ j ∈ reported head doc, i ∉ doc.ancestors j) ∧
    (∀ hider i, Exposes doc hider i → ∃ violation ∈ found, StandsAtHiding doc hider violation) ∧
    ∀ hider, hider ∈ reported head doc ↔ ∃ i, Exposes doc hider i := by
  intro doc
  have stands := check_stands head doc
  refine ⟨_,run_eq (Document.read_linked source filter) head,stands,rising_filter_zipIdx _ _,fun i first j second inside => ?_,fun hider i exposed => ?_,
    fun hider => mem_reported_iff head⟩
  · obtain ⟨_,outer⟩ := (mem_reported_iff head).mp first
    obtain ⟨_,inner⟩ := (mem_reported_iff head).mp second
    have hidden := (outermostHidden?_eq_some_iff.mp outer.outermost).2.1
    exact absurd (hidden.symm.trans ((outermostHidden?_eq_some_iff.mp inner.outermost).2.2 i inside)) (by decide)
  · obtain ⟨element,found,judged⟩ := mem_reported.mp ((mem_reported_iff head).mpr ⟨i,exposed⟩)
    obtain ⟨violation,made⟩ := Option.isSome_iff_exists.mp judged
    exact ⟨violation,List.mem_filterMap.mpr ⟨_,List.mem_zipIdx_iff_getElem?.mpr found,made⟩,
      standsAtHiding_of_judge? found made⟩

/-- Two hidden elements stand around the first button and the outer one is reported. What stands around the second
is taken out of the order of focus. -/
theorem hidden_focus_reported_once_nested :
    let doc := Document.read ("<div aria-hidden=\"true\"><p aria-hidden=\"true\"><button>x</button></p></div>" ++
      "<ul aria-hidden=\"true\"><li inert><button>y</button></li></ul>").toList
    (∀ i, ¬Exposes doc 3 i) ∧ outermostHidden? doc 5 = some 3 ∧ Exposes doc 0 2 ∧
      ∃ found, run rule.toRuleHead doc = some found ∧ (∃ violation ∈ found, StandsAtHiding doc 0 violation) ∧
        found.map (·.message) = ["Element with aria-hidden=\"true\" contains 1 focusable element(s)"] := by
  intro doc
  obtain ⟨outermost,reachable,active,judged,unshielded,silent,inner,messages⟩ : outermostHidden? doc 2 = some 0 ∧
      doc.holdsAt isReachable 2 = true ∧ doc.holdsAt (fun element => !element.has "inert") 0 = true ∧
      doc.holdsAt (fun element => element.isKnown || isReachable element) 0 = true ∧
      (∀ between ∈ doc.ancestors 2, 0 ∈ doc.ancestors between →
        doc.holdsAt (fun element => element.has "inert" || element.has "hidden") between = false) ∧
      3 ∉ reported rule.toRuleHead doc ∧ outermostHidden? doc 5 = some 3 ∧
      (run rule.toRuleHead doc).map (·.map (·.message)) =
        some ["Element with aria-hidden=\"true\" contains 1 focusable element(s)"] := by
    decide +kernel
  have exposed : Exposes doc 0 2 := ⟨outermost,reachable,active,judged,unshielded⟩
  obtain ⟨found,ran,_,_,_,every,exact⟩ := hidden_focus_reported_once rule.toRuleHead _ Filter.keep
  have here : run rule.toRuleHead doc = some found := ran
  rw [here,Option.map_some] at messages
  exact ⟨fun i hidden => silent ((exact 3).mpr ⟨i,hidden⟩),inner,exposed,found,ran,every 0 2 exposed,
    Option.some.inj messages⟩

end Rules.HiddenFocusable

end AccessibleMarkup
