import AccessibleMarkup.Proofs.AttributeInsertion
import AccessibleMarkup.Proofs.DocumentTree
import AccessibleMarkup.Proofs.ElementRenaming

/-! The search for the element that a fix is made on. It goes over the opening tags up to the anchor, last first, and
knows no links to parents. As the elements form a forest, it finds the innermost element around the anchor and the
parent of that. -/
namespace AccessibleMarkup

open Text Markup

namespace Markup

variable {text : List Char} {nodes : List Node} {anchor length i j : Nat} {node other : Node}

def Node.Around (node : Node) (anchor : Nat) : Prop := node.start ≤ anchor ∧ anchor < node.stop

theorem Forest.around_of_parent (forest : Forest length nodes) (found : nodes[i]? = some node)
    (around : node.Around anchor) (link : node.parent = some j) :
    j < i ∧ ∃ outer, nodes[j]? = some outer ∧ outer.Around anchor := by
  have placed := forest.placed i node found
  rw [Node.Placed,link] at placed
  obtain ⟨smaller,outer,here,_,starts,stops⟩ := placed
  have spans := forest.spans j outer here
  unfold Node.Spans at spans
  unfold Node.Around at around ⊢
  exact ⟨smaller,outer,here,by omega,by omega⟩

/-- The parent of an element around an anchor is the last of the elements before it that are around the anchor. -/
theorem Forest.parent_of_around (forest : Forest length nodes) (found : nodes[i]? = some node)
    (around : node.Around anchor) (before : nodes[j]? = some other) (also : other.Around anchor) (lower : j < i)
    (last : ∀ (k : Nat) (between : Node), j < k → k < i → nodes[k]? = some between → ¬ between.Around anchor) :
    node.parent = some j := by
  have rising := forest.rising j i other node before found lower
  have enclosed : Encloses nodes j i := (forest.encloses_iff before found).mpr
    ⟨rising,Nat.lt_of_le_of_lt around.1 also.2⟩
  have parent {p : Nat} (link : parentAt nodes i = some p) : node.parent = some p := by
    simpa [parentAt,found] using link
  cases enclosed with
  | parent link => exact parent link
  | beyond link rest =>
    obtain ⟨smaller,outer,here,holds⟩ := forest.around_of_parent found around (parent link)
    exact absurd holds (last _ outer (rest.lt forest) smaller here)

theorem nodeAt?_start (member : node ∈ outlineNodes text) : nodeAt? text node.start = some node := by
  obtain ⟨i,found⟩ := List.mem_iff_getElem?.mp member
  rw [nodeAt?,List.find?_eq_some_iff_getElem]
  obtain ⟨inside,here⟩ := List.getElem?_eq_some_iff.mp found
  refine ⟨beq_self_eq_true _,i,inside,here,fun j lower => ?_⟩
  have earlier := List.getElem?_eq_getElem (Nat.lt_trans lower inside)
  have rising := (outlineNodes_forest text).rising j i _ node earlier found lower
  simpa using Nat.ne_of_lt rising

end Markup

namespace FixTarget

variable {text : List Char} {anchor i : Nat} {node : Node}

/-- Whether an element found in the search encloses the anchor. -/
def reaches (anchor : Nat) (node : Node) : Bool := node.start == anchor || anchor < node.stop

theorem reaches_iff (member : node ∈ outlineNodes text) :
    (node.start ≤ anchor && reaches anchor node) = true ↔ node.Around anchor := by
  obtain ⟨i,found⟩ := List.mem_iff_getElem?.mp member
  have spans := (outlineNodes_forest text).spans i node found
  unfold Node.Spans at spans
  simp only [reaches,Node.Around,Bool.and_eq_true,Bool.or_eq_true,decide_eq_true_eq,beq_iff_eq]
  omega

/-- The elements that enclose the anchor as a search over the tags finds them: the opening tags up to the anchor, last
first, each with the element that starts there. -/
def searchTags (text : List Char) (anchor : Nat) : List Node :=
  (((lex text).takeWhile (·.start ≤ anchor)).filter (·.isOpening)).reverse.filterMap fun tag =>
    (nodeAt? text tag.start).filter (reaches anchor)

theorem lex_rising (text : List Char) : (lex text).Pairwise fun first second => first.start ≤ second.start := by
  have ordered := lex_inOrder text
  refine ordered.pairwise.imp_of_mem fun {first second} member _ apart => ?_
  exact Nat.le_trans (Nat.le_of_lt (ordered.between first member).1) apart

theorem searchTags_eq (text : List Char) (anchor : Nat) : searchTags text anchor = (enclosing text anchor).reverse := by
  let pick (start : Nat) : Option Node := (nodeAt? text start).filter (reaches anchor)
  have starts : ((lex text).filter (·.isOpening)).map (·.start) = (outlineNodes text).map (·.start) := by
    have heads := congrArg (List.map (·.2.1)) (outlineNodes_heads text)
    simpa [Node.head,Tag.head,Function.comp_def] using heads.symm
  have picked : ∀ node ∈ (outlineNodes text).filter (·.start ≤ anchor),
      pick node.start = Option.guard (reaches anchor) node := by
    intro node member
    simp only [pick,nodeAt?_start (List.mem_filter.mp member).1]
    rfl
  have upTo : (lex text).takeWhile (·.start ≤ anchor) = (lex text).filter (·.start ≤ anchor) := by
    refine takeWhile_eq_filter ((lex_rising text).imp fun {first second} before => ?_)
    simp only [decide_eq_true_eq]
    omega
  calc searchTags text anchor
      = ((((lex text).filter (·.isOpening)).filter (·.start ≤ anchor)).filterMap fun tag => pick tag.start).reverse := by
        rw [searchTags,upTo,List.filterMap_reverse,List.filter_comm]
    _ = (((((lex text).filter (·.isOpening)).map (·.start)).filter (· ≤ anchor)).filterMap pick).reverse := by
        rw [List.filter_map,List.filterMap_map]
        rfl
    _ = (((outlineNodes text).filter (·.start ≤ anchor)).filterMap fun node => pick node.start).reverse := by
        rw [starts,List.filter_map,List.filterMap_map]
        rfl
    _ = (enclosing text anchor).reverse := by
        rw [List.filterMap_congr picked,List.filterMap_eq_filter,List.filter_filter,enclosing]
        simp only [reaches,Bool.and_comm]

theorem locate?_eq_searchTags (text : List Char) (anchor : Nat) : locate? text anchor =
    match searchTags text anchor with
    | [] => none
    | node :: around => some ⟨node,around.head?⟩ := by
  rw [searchTags_eq]
  rfl

theorem locate?_eq_none_iff : locate? text anchor = none ↔ ∀ node ∈ outlineNodes text, ¬ node.Around anchor := by
  have nothing : locate? text anchor = none ↔ enclosing text anchor = [] := by
    rw [locate?,← List.reverse_eq_nil_iff]
    cases (enclosing text anchor).reverse <;> simp
  rw [nothing,enclosing,List.filter_eq_nil_iff]
  exact forall₂_congr fun node member => not_congr (reaches_iff member)

theorem locate?_of_last (found : (outlineNodes text)[i]? = some node) (around : node.Around anchor)
    (last : ∀ (j : Nat) (other : Node), i < j → (outlineNodes text)[j]? = some other → ¬ other.Around anchor) :
    locate? text anchor = some ⟨node,node.parent.bind fun p => (outlineNodes text)[p]?⟩ := by
  have forest := outlineNodes_forest text
  obtain ⟨inside,here⟩ := List.getElem?_eq_some_iff.mp found
  have parts : outlineNodes text = (outlineNodes text).take i ++ node :: (outlineNodes text).drop (i + 1) := by
    rw [← here,List.getElem_cons_drop,List.take_append_drop]
  have later : ∀ other ∈ (outlineNodes text).drop (i + 1),
      ¬ (other.start ≤ anchor && reaches anchor other) = true := by
    intro other member
    obtain ⟨j,place⟩ := List.mem_iff_getElem?.mp member
    rw [List.getElem?_drop] at place
    rw [reaches_iff (List.mem_of_getElem? place)]
    exact last _ other (by omega) place
  rw [locate?_last text _ _ node parts anchor ((reaches_iff (List.mem_of_getElem? found)).mpr around) later]
  congr
  change (((outlineNodes text).take i).filter fun other => other.start ≤ anchor && reaches anchor other).getLast? = _
  cases next : (((outlineNodes text).take i).filter fun other =>
      other.start ≤ anchor && reaches anchor other).getLast? with
  | none =>
    cases link : node.parent with
    | none => rfl
    | some p =>
      obtain ⟨smaller,outside,present,also⟩ := forest.around_of_parent found around link
      have nothing := List.filter_eq_nil_iff.mp (List.getLast?_eq_none_iff.mp next)
      have member : outside ∈ (outlineNodes text).take i :=
        List.mem_of_getElem? ((List.getElem?_take_of_lt smaller).trans present)
      exact absurd ((reaches_iff (List.mem_of_getElem? present)).mpr also) (nothing outside member)
  | some outer =>
    obtain ⟨holds,front,back,earlier,others⟩ := getLast?_filter_eq_some_iff.mp next
    have place : ((outlineNodes text).take i)[front.length]? = some outer := by simp [earlier]
    rw [List.getElem?_take,Option.ite_none_right_eq_some] at place
    obtain ⟨lower,before⟩ := place
    have link : node.parent = some front.length := by
      refine forest.parent_of_around found around before ((reaches_iff (List.mem_of_getElem? before)).mp holds) lower ?_
      intro k between first second present also
      have there : ((outlineNodes text).take i)[k]? = some between := (List.getElem?_take_of_lt second).trans present
      rw [earlier,List.getElem?_append_right (by omega),List.getElem?_cons,if_neg (by omega)] at there
      have missed := others between (List.mem_of_getElem? there)
      rw [(reaches_iff (List.mem_of_getElem? present)).mpr also] at missed
      contradiction
    rw [link]
    exact before.symm

theorem locate?_eq_some_iff {target : FixTarget} : locate? text anchor = some target ↔
    ∃ i node, (outlineNodes text)[i]? = some node ∧ node.Around anchor ∧
      (∀ (j : Nat) (other : Node), i < j → (outlineNodes text)[j]? = some other → ¬ other.Around anchor) ∧
      target = ⟨node,node.parent.bind fun p => (outlineNodes text)[p]?⟩ := by
  constructor
  · intro located
    have nonempty : enclosing text anchor ≠ [] := by
      intro nothing
      rw [locate?,nothing] at located
      contradiction
    obtain ⟨holds,front,back,parts,others⟩ :=
      getLast?_filter_eq_some_iff.mp (List.getLast?_eq_some_getLast nonempty)
    have found : (outlineNodes text)[front.length]? = some ((enclosing text anchor).getLast nonempty) := by
      rw [parts]
      simp
    have around := (reaches_iff (List.mem_of_getElem? found)).mp holds
    have beyond : ∀ (j : Nat) (other : Node), front.length < j → (outlineNodes text)[j]? = some other →
        ¬ other.Around anchor := by
      intro j other lower present also
      have holds := (reaches_iff (List.mem_of_getElem? present)).mpr also
      rw [parts,List.getElem?_append_right (by omega),List.getElem?_cons,if_neg (by omega)] at present
      exact Bool.false_ne_true ((others other (List.mem_of_getElem? present)).symm.trans holds)
    rw [locate?_of_last found around beyond] at located
    exact ⟨front.length,_,found,around,beyond,(Option.some.inj located).symm⟩
  · rintro ⟨i,node,found,around,beyond,same⟩
    rw [same]
    exact locate?_of_last found around beyond

def IsParent (text : List Char) (element : Element) : Option Node → Prop
  | none => element.parent = none
  | some node => ∃ p outer, element.parent = some p ∧ (elements text)[p]? = some outer ∧ outer.toNode = node

/-- The innermost element around an anchor, with its parent. -/
structure IsInnermost (text : List Char) (anchor : Nat) (target : FixTarget) (element : Element) : Prop where
  member : element ∈ elements text
  around : element.start ≤ anchor ∧ anchor < element.stop
  latest : ∀ other ∈ elements text, other.start ≤ anchor → anchor < other.stop → other.start ≤ element.start
  node : target.node = element.toNode
  parent : IsParent text element target.parent

theorem getElem?_element (found : (outlineNodes text)[i]? = some node) :
    (elements text)[i]? = some (Element.ofNode text node) := by
  rw [elements_getElem?,found]
  rfl

theorem isParent_iff {parent : Option Node} (found : (outlineNodes text)[i]? = some node) :
    IsParent text (Element.ofNode text node) parent ↔ parent = node.parent.bind fun p => (outlineNodes text)[p]? := by
  have placed := (outlineNodes_forest text).placed i node found
  unfold Node.Placed at placed
  change (match parent with
    | none => node.parent = none
    | some other => ∃ p outer, node.parent = some p ∧ (elements text)[p]? = some outer ∧ outer.toNode = other) ↔ _
  cases link : node.parent with
  | none => cases parent <;> simp
  | some p =>
    rw [link] at placed
    obtain ⟨_,outer,present,_⟩ := placed
    rw [Option.bind_some,present]
    cases parent with
    | none => simp
    | some other =>
      constructor
      · intro ⟨q,around,same,there,equal⟩
        obtain rfl := Option.some.inj same
        rw [getElem?_element present] at there
        obtain rfl := Option.some.inj there
        exact congrArg some equal.symm
      · intro same
        exact ⟨p,_,rfl,getElem?_element present,(Option.some.inj same).symm⟩

theorem locate?_eq_some_iff_isInnermost {target : FixTarget} :
    locate? text anchor = some target ↔ ∃ element, IsInnermost text anchor target element := by
  have forest := outlineNodes_forest text
  rw [locate?_eq_some_iff]
  constructor
  · intro ⟨i,node,found,around,beyond,same⟩
    subst same
    refine ⟨Element.ofNode text node,List.mem_of_getElem? (getElem?_element found),around,?_,rfl,
      (isParent_iff found).mpr rfl⟩
    intro other member starts stops
    obtain ⟨second,inside,rfl⟩ := List.mem_map.mp member
    obtain ⟨j,present⟩ := List.mem_iff_getElem?.mp inside
    rcases Nat.lt_trichotomy i j with later | rfl | earlier
    · exact absurd ⟨starts,stops⟩ (beyond j second later present)
    · obtain rfl := Option.some.inj (found.symm.trans present)
      exact Nat.le_refl _
    · exact Nat.le_of_lt (forest.rising j i second node present found earlier)
  · intro ⟨element,innermost⟩
    obtain ⟨node,inside,rfl⟩ := List.mem_map.mp innermost.member
    obtain ⟨i,found⟩ := List.mem_iff_getElem?.mp inside
    refine ⟨i,node,found,innermost.around,fun j other later present also => ?_,?_⟩
    · have rising := forest.rising i j node other found present later
      have latest := innermost.latest _ (List.mem_of_getElem? (getElem?_element present)) also.1 also.2
      exact absurd (Nat.lt_of_lt_of_le rising latest) (Nat.lt_irrefl _)
    · have parent := (isParent_iff found).mp innermost.parent
      rw [← parent]
      cases target
      exact congrArg (FixTarget.mk · _) innermost.node

/-- The search over the tags up to an anchor finds the innermost element of the tree around it with the parent that
the tree has, and nothing exactly where no element is around the anchor. -/
theorem locate?_agrees_with_tree (text : List Char) (anchor : Nat) :
    (locate? text anchor = match searchTags text anchor with
      | [] => none
      | node :: around => some ⟨node,around.head?⟩) ∧
    (locate? text anchor = none ↔ ∀ element ∈ elements text, ¬ (element.start ≤ anchor ∧ anchor < element.stop)) ∧
    (∀ target, locate? text anchor = some target ↔ ∃ element, IsInnermost text anchor target element) ∧
    ∀ element ∈ elements text, element.start = anchor → ∃ parent, locate? text anchor = some ⟨element.toNode,parent⟩ := by
  refine ⟨locate?_eq_searchTags text anchor,?_,fun target => locate?_eq_some_iff_isInnermost,?_⟩
  · rw [locate?_eq_none_iff,elements,List.forall_mem_map]
    rfl
  · intro element member starts
    obtain ⟨node,inside,rfl⟩ := List.mem_map.mp member
    obtain ⟨i,found⟩ := List.mem_iff_getElem?.mp inside
    have spans := (outlineNodes_forest text).spans i node found
    have opened : anchor < node.openStop := starts ▸ spans.1
    exact locate?_inside text node inside anchor (Nat.le_of_eq starts) opened

theorem locate?_agrees_with_tree_cut :
    let text := "<ul><li>a<li><b>x</ul>y</b>".toList
    (∃ element ∈ elements text, element.start = 13 ∧ ∃ parent, locate? text 13 = some ⟨element.toNode,parent⟩) ∧
      (locate? text 16).map (fun target => (target.node.start,target.parent.map (·.start))) = some (13,some 9) ∧
      (locate? text 8).map (fun target => (target.node.start,target.parent.map (·.start))) = some (4,some 0) ∧
      locate? text 22 = none := by
  intro text
  have present : (elements text).any (·.start == 13) = true := by decide +kernel
  obtain ⟨element,member,starts⟩ := List.any_eq_true.mp present
  have place : element.start = 13 := beq_iff_eq.mp starts
  obtain ⟨_,_,_,first⟩ := locate?_agrees_with_tree text 13
  exact ⟨⟨element,member,place,first element member place⟩,by decide +kernel,by decide +kernel,by decide +kernel⟩

end FixTarget

end AccessibleMarkup
