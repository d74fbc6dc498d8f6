import AccessibleMarkup.Proofs.OutlineForest
import Mathlib.Data.List.Sort

/-! The elements of a document as a tree. Descendants are found by depth alone, ancestors by the links to
parents, and the children of all elements in one pass; as the elements form a forest in document order, all
three describe the same tree. -/
namespace AccessibleMarkup

open Text Markup

namespace Markup

variable {length : Nat} {nodes : List Node} {i j k : Nat} {first second : Node}

theorem Encloses.exists_inner (enclosed : Encloses nodes i j) : ∃ inner, nodes[j]? = some inner := by
  obtain ⟨link⟩ | ⟨link⟩ := enclosed <;> exact ⟨_,(Option.bind_eq_some_iff.mp link).choose_spec.1⟩

theorem Encloses.exists_outer (forest : Forest length nodes) (enclosed : Encloses nodes i j) :
    ∃ outer, nodes[i]? = some outer := by
  obtain ⟨inner,found⟩ := enclosed.exists_inner
  have inside := (List.getElem?_eq_some_iff.mp found).1
  exact ⟨_,List.getElem?_eq_getElem (Nat.lt_trans (enclosed.lt forest) inside)⟩

theorem Encloses.depth_lt (forest : Forest length nodes) (enclosed : Encloses nodes i j)
    (found : nodes[i]? = some first) (other : nodes[j]? = some second) : first.depth < second.depth := by
  have link {inner outer : Nat} {node : Node} (link : parentAt nodes inner = some outer)
      (present : nodes[inner]? = some node) : ∃ around, nodes[outer]? = some around ∧ node.depth = around.depth + 1 := by
    have parent : node.parent = some outer := by simpa [parentAt,present] using link
    have placed := forest.placed inner node present
    rw [Node.Placed,parent] at placed
    obtain ⟨_,around,here,deeper,_⟩ := placed
    exact ⟨around,here,deeper⟩
  induction enclosed generalizing second with
  | parent direct =>
    obtain ⟨around,here,deeper⟩ := link direct other
    obtain rfl := Option.some.inj (found.symm.trans here)
    omega
  | beyond direct _ ih =>
    obtain ⟨around,here,deeper⟩ := link direct other
    have := ih here
    omega

theorem Forest.encloses_iff (forest : Forest length nodes) (found : nodes[i]? = some first)
    (other : nodes[j]? = some second) :
    Encloses nodes i j ↔ first.start < second.start ∧ second.start < first.stop := by
  have spans := forest.spans i first found
  have within := forest.spans j second other
  unfold Node.Spans at spans within
  constructor
  · intro enclosed
    have inside := enclosed.inside forest first second found other
    omega
  · rintro ⟨after,before⟩
    have later : i < j := (forest.lt_iff found other).mpr after
    rcases forest.apart i j first second found other later with enclosed | outside
    · exact enclosed
    · omega

theorem Forest.encloses_between (forest : Forest length nodes) (enclosed : Encloses nodes i j) (found : nodes[i]? = some first)
    (other : nodes[j]? = some second) (lower : i < k) (upper : k ≤ j) : Encloses nodes i k := by
  obtain ⟨middle,here⟩ : ∃ middle, nodes[k]? = some middle :=
    ⟨_,List.getElem?_eq_getElem (Nat.lt_of_le_of_lt upper (List.getElem?_eq_some_iff.mp other).1)⟩
  have last := (forest.encloses_iff found other).mp enclosed
  have after := forest.rising i k first middle found here lower
  have before : middle.start ≤ second.start := by
    rcases Nat.eq_or_lt_of_le upper with rfl | less
    · obtain rfl := Option.some.inj (here.symm.trans other)
      exact Nat.le_refl _
    · exact Nat.le_of_lt (forest.rising k j middle second here other less)
  exact (forest.encloses_iff found here).mpr ⟨after,by omega⟩

theorem Forest.encloses_iff_deeper (forest : Forest length nodes) (found : nodes[i]? = some first)
    (other : nodes[j]? = some second) :
    Encloses nodes i j ↔ i < j ∧ ∀ k node, i < k → k ≤ j → nodes[k]? = some node → first.depth < node.depth := by
  constructor
  · intro enclosed
    refine ⟨enclosed.lt forest,fun k node lower upper here => ?_⟩
    exact (forest.encloses_between enclosed found other lower upper).depth_lt forest found here
  · rintro ⟨lower,deeper⟩
    induction j using Nat.strong_induction_on generalizing second with
    | _ j ih =>
      have deep := deeper j second lower (Nat.le_refl _) other
      have placed := forest.placed j second other
      unfold Node.Placed at placed
      cases parent : second.parent with
      | none =>
        rw [parent] at placed
        omega
      | some p =>
        rw [parent] at placed
        obtain ⟨smaller,around,here,level,_⟩ := placed
        have link : parentAt nodes j = some p := by simp [parentAt,other,parent]
        rcases Nat.lt_trichotomy p i with outside | rfl | inside
        · have enclosed := forest.encloses_between (.parent link) here other outside (Nat.le_of_lt lower)
          have := enclosed.depth_lt forest here found
          omega
        · exact .parent link
        · refine .beyond link (ih p smaller here inside fun k node lower upper => ?_)
          exact deeper k node lower (by omega)

end Markup

section Runs

variable {α : Type}

theorem drop_zipIdx (entries : List α) (count base : Nat) :
    (entries.zipIdx base).drop count = (entries.drop count).zipIdx (base + count) := by
  apply List.ext_getElem?
  intro k
  simp [List.getElem?_zipIdx,List.getElem?_drop,Nat.add_assoc]

theorem takeWhile_zipIdx (entries : List α) (condition : α → Bool) (base : Nat) :
    (entries.zipIdx base).takeWhile (fun entry => condition entry.1) = (entries.takeWhile condition).zipIdx base := by
  induction entries generalizing base with
  | nil => rfl
  | cons first rest ih =>
    rw [List.zipIdx_cons,List.takeWhile_cons,List.takeWhile_cons]
    cases condition first with
    | false => rfl
    | true => simp [List.zipIdx_cons,ih]

theorem rising_filter_zipIdx (entries : List α) (condition : α × Nat → Bool) :
    ((entries.zipIdx.filter condition).map (·.2)).Pairwise (· < ·) := by
  have all : (entries.zipIdx.map (·.2)).Pairwise (· < ·) := by
    rw [List.zipIdx_map_snd]
    exact List.pairwise_lt_range' 1
  exact all.sublist (List.filter_sublist.map _)

theorem lt_length_takeWhile_iff (entries : List α) (condition : α → Bool) (count : Nat) :
    count < (entries.takeWhile condition).length ↔
      count < entries.length ∧ ∀ k entry, k ≤ count → entries[k]? = some entry → condition entry = true := by
  rw [List.takeWhile_eq_take_findIdx_not,List.length_take,Nat.min_eq_left List.findIdx_le_length,List.lt_findIdx_iff]
  constructor
  · rintro ⟨inside,all⟩
    refine ⟨inside,fun k entry upper found => ?_⟩
    obtain ⟨bound,rfl⟩ := List.getElem?_eq_some_iff.mp found
    simpa using all k upper
  · rintro ⟨inside,all⟩
    refine ⟨inside,fun k upper => ?_⟩
    simpa using all k _ upper (List.getElem?_eq_getElem (Nat.lt_of_le_of_lt upper inside))

theorem getLast?_filter_eq_some_iff {entries : List α} {condition : α → Bool} {last : α} :
    (entries.filter condition).getLast? = some last ↔ condition last = true ∧ ∃ front back,
      entries = front ++ last :: back ∧ ∀ later ∈ back, condition later = false := by
  rw [List.getLast?_eq_head?_reverse,← List.filter_reverse,List.head?_filter,List.find?_eq_some_iff_append]
  refine and_congr_right fun _ => ?_
  constructor
  · intro ⟨back,front,parts,others⟩
    refine ⟨front.reverse,back.reverse,?_,fun later member => ?_⟩
    · rw [← List.reverse_reverse entries,parts]
      simp
    · simpa using others later (List.mem_reverse.mp member)
  · intro ⟨front,back,parts,others⟩
    refine ⟨back.reverse,front.reverse,by simp [parts],fun later member => ?_⟩
    simpa using others later (List.mem_reverse.mp member)

theorem takeWhile_eq_filter {entries : List α} {condition : α → Bool}
    (falling : entries.Pairwise fun first second => condition second = true → condition first = true) :
    entries.takeWhile condition = entries.filter condition := by
  induction entries with
  | nil => rfl
  | cons first rest ih =>
    obtain ⟨before,later⟩ := List.pairwise_cons.mp falling
    by_cases holds : condition first = true
    · rw [List.takeWhile_cons_of_pos holds,List.filter_cons_of_pos holds,ih later]
    · rw [List.takeWhile_cons_of_neg holds,List.filter_cons_of_neg holds]
      exact (List.filter_eq_nil_iff.mpr fun other member also => holds (before other member also)).symm

theorem forall₂_filterMap {β : Type} {related : α → β → Prop} {result : α → Option β} (entries : List α)
    (each : ∀ entry ∈ entries, ∃ found, result entry = some found ∧ related entry found) :
    List.Forall₂ related entries (entries.filterMap result) := by
  induction entries with
  | nil => exact .nil
  | cons first rest ih =>
    obtain ⟨found,made,holds⟩ := each first List.mem_cons_self
    rw [List.filterMap_cons_some made]
    exact .cons holds (ih fun entry member => each entry (List.mem_cons_of_mem _ member))

end Runs

namespace Branches

theorem foldl_add (entries : List (Element × Nat)) (branches : Branches) :
    (entries.foldl add branches).roots =
        branches.roots ++ (entries.filter fun entry => entry.1.parent == none).map (·.2) ∧
      ∀ i : Nat, (entries.foldl add branches).children[i]? = branches.children[i]?.map
        (· ++ (entries.filter fun entry => entry.1.parent == some i).map (·.2)) := by
  induction entries generalizing branches with
  | nil => simp
  | cons entry rest ih =>
    obtain ⟨roots,children⟩ := ih (branches.add entry)
    rw [List.foldl_cons]
    cases parent : entry.1.parent with
    | none =>
      refine ⟨?_,fun i => ?_⟩
      · rw [roots]
        simp [add,parent]
      · rw [children]
        simp [add,parent]
    | some p =>
      refine ⟨?_,fun i => ?_⟩
      · rw [roots]
        simp [add,parent]
      · rw [children]
        simp only [add,parent,List.getElem?_modify]
        by_cases same : p = i
        · cases branches.children[i]? <;> simp [same,parent]
        · cases branches.children[i]? <;> simp [same,parent]

end Branches

namespace Document

section Indices

variable {doc : Document} {condition : Element → Bool} {i : Nat}

theorem mem_indicesWhere : i ∈ doc.indicesWhere condition ↔ doc.holdsAt condition i = true := by
  rw [holdsAt,Option.any_eq_true]
  constructor
  · intro member
    obtain ⟨⟨element,k⟩,kept,rfl⟩ := List.mem_map.mp member
    obtain ⟨entry,holds⟩ := List.mem_filter.mp kept
    exact ⟨element,List.mem_zipIdx_iff_getElem?.mp entry,holds⟩
  · rintro ⟨element,found,holds⟩
    exact List.mem_map.mpr ⟨(element,i),List.mem_filter.mpr ⟨List.mem_zipIdx_iff_getElem?.mpr found,holds⟩,rfl⟩

theorem indicesWhere_rising : (doc.indicesWhere condition).Pairwise (· < ·) := rising_filter_zipIdx _ _

theorem indicesWhere_eq_filter :
    doc.indicesWhere condition = (List.range doc.elements.length).filter (doc.holdsAt condition) := by
  refine indicesWhere_rising.eq_of_mem_iff (List.pairwise_lt_range.filter _) fun i => ?_
  rw [mem_indicesWhere,List.mem_filter,List.mem_range]
  refine ⟨fun holds => ⟨?_,holds⟩,And.right⟩
  obtain ⟨element,found,_⟩ := (Option.any_eq_true _ _).mp holds
  exact (List.getElem?_eq_some_iff.mp found).1

theorem roots_eq : doc.roots = doc.indicesWhere fun element => element.parent == none := by
  rw [roots,Branches.ofElements,(Branches.foldl_add _ _).1]
  rfl

theorem children_eq (inside : i < doc.elements.length) :
    doc.children i = doc.indicesWhere fun element => element.parent == some i := by
  rw [children,Branches.ofElements,(Branches.foldl_add _ _).2,List.getElem?_map,List.getElem?_eq_getElem inside]
  rfl

theorem children_of_length_le (outside : doc.elements.length ≤ i) : doc.children i = [] := by
  rw [children,Branches.ofElements,(Branches.foldl_add _ _).2,List.getElem?_map,List.getElem?_eq_none outside]
  rfl

theorem descendants_eq_range' {element : Element} (found : doc.elements[i]? = some element) :
    doc.descendants i = List.range' (i + 1)
      ((doc.elements.drop (i + 1)).takeWhile fun inner => element.depth < inner.depth).length := by
  rw [descendants,found]
  dsimp only
  rw [drop_zipIdx,takeWhile_zipIdx (doc.elements.drop (i + 1)) fun inner => element.depth < inner.depth,
    List.zipIdx_map_snd,Nat.zero_add]

theorem descendants_rising : (doc.descendants i).Pairwise (· < ·) := by
  cases found : doc.elements[i]? with
  | none =>
    rw [descendants,found]
    exact .nil
  | some element =>
    rw [descendants_eq_range' found]
    exact List.pairwise_lt_range' 1

theorem mem_descendants_iff_deeper {outer : Element} (found : doc.elements[i]? = some outer) (j : Nat) :
    j ∈ doc.descendants i ↔ i < j ∧ j < doc.elements.length ∧ ∀ (k : Nat) (inner : Element), i < k → k ≤ j →
      doc.elements[k]? = some inner → outer.depth < inner.depth := by
  have inside := (List.getElem?_eq_some_iff.mp found).1
  have counted := lt_length_takeWhile_iff (doc.elements.drop (i + 1)) (fun inner => outer.depth < inner.depth)
    (j - (i + 1))
  rw [List.length_drop] at counted
  rw [descendants_eq_range' found,List.mem_range'_1]
  constructor
  · rintro ⟨lower,upper⟩
    obtain ⟨short,deeper⟩ := counted.mp (by omega)
    refine ⟨lower,by omega,fun k inner after before present => ?_⟩
    have here : (doc.elements.drop (i + 1))[k - (i + 1)]? = some inner := by
      rw [List.getElem?_drop,Nat.add_sub_cancel' after,present]
    exact of_decide_eq_true (deeper (k - (i + 1)) inner (by omega) here)
  · rintro ⟨lower,upper,deeper⟩
    have short := counted.mpr ⟨by omega,fun k inner upper present => by
      rw [List.getElem?_drop] at present
      exact decide_eq_true (deeper (i + 1 + k) inner (by omega) (by omega) present)⟩
    omega

end Indices

section Links

variable {source : List Char} {filter : Filter} {i j p : Nat}

theorem getElem?_nodes {element : Element} (found : (read source filter).elements[i]? = some element) :
    (outlineNodes (filter.apply source))[i]? = some element.toNode := by
  have same : (Markup.elements (filter.apply source))[i]? = some element := found
  rw [elements_getElem?] at same
  obtain ⟨node,present,rfl⟩ := Option.map_eq_some_iff.mp same
  exact present

theorem exists_element {node : Node} (found : (outlineNodes (filter.apply source))[i]? = some node) :
    ∃ element, (read source filter).elements[i]? = some element ∧ element.toNode = node := by
  refine ⟨Element.ofNode (filter.apply source) node,?_,rfl⟩
  change (Markup.elements (filter.apply source))[i]? = _
  rw [elements_getElem?,found]
  rfl

theorem parentAt_eq (j : Nat) :
    parentAt (outlineNodes (filter.apply source)) j = ((read source filter).elements[j]?).bind (·.parent) :=
  (parent_of_elements _ j).symm

theorem lt_of_link {text : List Char} (link : parentAt (outlineNodes text) i = some p) : p < i :=
  (Encloses.parent link).lt (outlineNodes_forest text)

theorem ancestorsWithin_of_le (text : List Char) (steps : Nat) (enough : i ≤ steps) :
    ancestorsWithin (Markup.elements text) steps i = ancestorsWithin (Markup.elements text) i i := by
  induction i using Nat.strong_induction_on generalizing steps with
  | _ i ih =>
    cases steps with
    | zero =>
      obtain rfl : i = 0 := by omega
      rfl
    | succ steps =>
      cases i with
      | zero =>
        rw [ancestorsWithin,ancestorsWithin,parent_of_elements]
        cases link : parentAt (outlineNodes text) 0 with
        | none => rfl
        | some p => exact absurd (lt_of_link link) (Nat.not_lt_zero p)
      | succ i =>
        rw [ancestorsWithin,ancestorsWithin,parent_of_elements]
        cases link : parentAt (outlineNodes text) (i + 1) with
        | none => rfl
        | some p =>
          have smaller := lt_of_link link
          dsimp only
          rw [ih p smaller steps (by omega),ih p smaller i (by omega)]

theorem ancestors_of_root (root : parentAt (outlineNodes (filter.apply source)) i = none) :
    (read source filter).ancestors i = [] := by
  change ancestorsWithin (Markup.elements (filter.apply source)) _ i = _
  cases (read source filter).elements.length with
  | zero => rfl
  | succ steps => rw [ancestorsWithin,parent_of_elements,root]

theorem ancestors_of_link (link : parentAt (outlineNodes (filter.apply source)) i = some p) :
    (read source filter).ancestors i = p :: (read source filter).ancestors p := by
  have smaller := lt_of_link link
  have inside : i < (read source filter).elements.length := by
    obtain ⟨node,found,_⟩ := Option.bind_eq_some_iff.mp link
    obtain ⟨element,present,_⟩ := exists_element found
    exact (List.getElem?_eq_some_iff.mp present).1
  change ancestorsWithin (Markup.elements (filter.apply source)) _ i =
    p :: ancestorsWithin (Markup.elements (filter.apply source)) _ p
  cases size : (read source filter).elements.length with
  | zero => omega
  | succ steps =>
    rw [ancestorsWithin,parent_of_elements,link]
    dsimp only
    rw [ancestorsWithin_of_le _ steps (by omega),ancestorsWithin_of_le _ (steps + 1) (by omega)]

theorem mem_ancestors :
    i ∈ (read source filter).ancestors j ↔ Encloses (outlineNodes (filter.apply source)) i j := by
  by_cases inside : j ≤ (read source filter).elements.length
  · exact mem_ancestorsWithin _ _ j i inside
  · have root : parentAt (outlineNodes (filter.apply source)) j = none := by
      rw [parentAt_eq,List.getElem?_eq_none (by omega),Option.bind_none]
    rw [ancestors_of_root root]
    refine ⟨fun member => absurd member List.not_mem_nil,fun enclosed => ?_⟩
    obtain ⟨link⟩ | ⟨link⟩ := enclosed <;> simp [root] at link

theorem lt_of_ancestors (member : i ∈ (read source filter).ancestors j) : i < j :=
  (mem_ancestors.mp member).lt (outlineNodes_forest _)

/-- What follows an element among the ancestors of another are its own ancestors. -/
theorem ancestors_split {front back : List Nat} (parts : (read source filter).ancestors j = front ++ i :: back) :
    back = (read source filter).ancestors i := by
  induction front generalizing j with
  | nil =>
    cases link : parentAt (outlineNodes (filter.apply source)) j with
    | none => rw [ancestors_of_root link] at parts; contradiction
    | some p =>
      rw [ancestors_of_link link] at parts
      obtain ⟨rfl,rfl⟩ := List.cons.inj parts
      rfl
  | cons first front ih =>
    cases link : parentAt (outlineNodes (filter.apply source)) j with
    | none => rw [ancestors_of_root link] at parts; contradiction
    | some p =>
      rw [ancestors_of_link link] at parts
      obtain ⟨rfl,rest⟩ := List.cons.inj parts
      exact ih rest

theorem ancestors_trans {k : Nat} (first : i ∈ (read source filter).ancestors j)
    (second : j ∈ (read source filter).ancestors k) : i ∈ (read source filter).ancestors k := by
  obtain ⟨front,back,parts⟩ := List.append_of_mem second
  rw [parts,ancestors_split parts]
  exact List.mem_append_right _ (List.mem_cons_of_mem _ first)

theorem ancestors_linear {k : Nat} (first : i ∈ (read source filter).ancestors k)
    (second : j ∈ (read source filter).ancestors k) :
    i = j ∨ i ∈ (read source filter).ancestors j ∨ j ∈ (read source filter).ancestors i := by
  obtain ⟨front,back,parts⟩ := List.append_of_mem first
  rw [parts] at second
  rcases List.mem_append.mp second with before | after
  · obtain ⟨start,rest,rfl⟩ := List.append_of_mem before
    rw [List.append_assoc,List.cons_append] at parts
    rw [← ancestors_split parts]
    exact Or.inr (Or.inl (by simp))
  · rcases List.mem_cons.mp after with same | later
    · exact Or.inl same.symm
    · exact Or.inr (Or.inr (ancestors_split parts ▸ later))

theorem mem_descendants :
    j ∈ (read source filter).descendants i ↔ Encloses (outlineNodes (filter.apply source)) i j := by
  have forest := outlineNodes_forest (filter.apply source)
  cases found : (read source filter).elements[i]? with
  | none =>
    rw [descendants,found]
    refine ⟨fun member => absurd member List.not_mem_nil,fun enclosed => ?_⟩
    obtain ⟨outer,present⟩ := enclosed.exists_outer forest
    obtain ⟨element,here,_⟩ := exists_element present
    rw [found] at here
    contradiction
  | some outer =>
    rw [mem_descendants_iff_deeper found]
    constructor
    · rintro ⟨lower,upper,deeper⟩
      have last := getElem?_nodes (List.getElem?_eq_getElem upper)
      refine (forest.encloses_iff_deeper (getElem?_nodes found) last).mpr ⟨lower,fun k node after before here => ?_⟩
      obtain ⟨inner,present,rfl⟩ := exists_element here
      exact deeper k inner after before present
    · intro enclosed
      obtain ⟨node,last⟩ := enclosed.exists_inner
      obtain ⟨element,present,_⟩ := exists_element last
      obtain ⟨lower,deeper⟩ := (forest.encloses_iff_deeper (getElem?_nodes found) last).mp enclosed
      refine ⟨lower,(List.getElem?_eq_some_iff.mp present).1,fun k inner after before here => ?_⟩
      exact deeper k inner.toNode after before (getElem?_nodes here)

theorem mem_children :
    j ∈ (read source filter).children i ↔ ((read source filter).elements[j]?).bind (·.parent) = some i := by
  by_cases inside : i < (read source filter).elements.length
  · rw [children_eq inside,mem_indicesWhere,holdsAt]
    cases (read source filter).elements[j]? <;> simp
  · rw [children_of_length_le (Nat.le_of_not_lt inside)]
    refine ⟨fun member => absurd member List.not_mem_nil,fun link => ?_⟩
    have smaller := lt_of_link ((parentAt_eq j).trans link)
    obtain ⟨element,found,_⟩ := Option.bind_eq_some_iff.mp link
    exact absurd (Nat.lt_trans smaller (List.getElem?_eq_some_iff.mp found).1) inside

theorem descendants_eq_filter (source : List Char) (filter : Filter) (i : Nat) :
    (read source filter).descendants i =
      (List.range (read source filter).elements.length).filter (fun j => ((read source filter).ancestors j).contains i) := by
  refine descendants_rising.eq_of_mem_iff (List.pairwise_lt_range.filter _) fun j => ?_
  rw [List.mem_filter,List.mem_range,List.contains_iff_mem,mem_ancestors,mem_descendants]
  refine ⟨fun enclosed => ⟨?_,enclosed⟩,And.right⟩
  obtain ⟨node,last⟩ := enclosed.exists_inner
  obtain ⟨element,present,_⟩ := exists_element last
  exact (List.getElem?_eq_some_iff.mp present).1

theorem descendants_eq_indicesWhere {outer : Element} (found : (read source filter).elements[i]? = some outer) :
    (read source filter).descendants i =
      (read source filter).indicesWhere (fun inner => outer.start < inner.start && inner.start < outer.stop) := by
  have forest := outlineNodes_forest (filter.apply source)
  refine descendants_rising.eq_of_mem_iff indicesWhere_rising fun j => ?_
  rw [mem_descendants,mem_indicesWhere,holdsAt,Option.any_eq_true]
  constructor
  · intro enclosed
    obtain ⟨node,last⟩ := enclosed.exists_inner
    obtain ⟨inner,present,rfl⟩ := exists_element last
    have inside := (forest.encloses_iff (getElem?_nodes found) last).mp enclosed
    exact ⟨inner,present,by simpa using inside⟩
  · rintro ⟨inner,present,inside⟩
    exact (forest.encloses_iff (getElem?_nodes found) (getElem?_nodes present)).mpr (by simpa using inside)

theorem root_or_child (inside : j < (read source filter).elements.length) :
    (j ∈ (read source filter).roots ∧ ∀ i, j ∉ (read source filter).children i) ∨
      (j ∉ (read source filter).roots ∧ ∃! i, j ∈ (read source filter).children i) := by
  have root : j ∈ (read source filter).roots ↔ ((read source filter).elements[j]?).bind (·.parent) = none := by
    rw [roots_eq,mem_indicesWhere,holdsAt,List.getElem?_eq_getElem inside]
    simp
  cases link : ((read source filter).elements[j]?).bind (·.parent) with
  | none =>
    refine Or.inl ⟨root.mpr link,fun i child => ?_⟩
    rw [mem_children.mp child] at link
    contradiction
  | some p =>
    refine Or.inr ⟨fun member => ?_,p,mem_children.mpr link,fun i child => ?_⟩
    · rw [root.mp member] at link
      contradiction
    · exact Option.some.inj ((mem_children.mp child).symm.trans link)

end Links

/-- The run of deeper elements after an element, the elements whose links to parents lead to it, and those that
start inside it are the same. Children are the elements that link to it, and each element is a root or the child
of one element. -/
theorem descendants_structural (source : List Char) (filter : Filter) :
    let doc := Document.read source filter
    (∀ (i : Nat) (outer : Element), doc.elements[i]? = some outer →
      doc.descendants i = (List.range doc.elements.length).filter (fun j => (doc.ancestors j).contains i) ∧
      doc.descendants i =
        doc.indicesWhere (fun inner => outer.start < inner.start && inner.start < outer.stop) ∧
      (∃ count, doc.descendants i = List.range' (i + 1) count) ∧
      doc.children i = doc.indicesWhere (fun inner => inner.parent == some i)) ∧
    doc.roots = doc.indicesWhere (fun element => element.parent == none) ∧
    ∀ j < doc.elements.length, (j ∈ doc.roots ∧ ∀ i, j ∉ doc.children i) ∨
      (j ∉ doc.roots ∧ ∃! i, j ∈ doc.children i) := by
  intro doc
  refine ⟨fun i outer found => ⟨descendants_eq_filter source filter i,descendants_eq_indicesWhere found,?_,?_⟩,roots_eq,
    fun j inside => root_or_child inside⟩
  · exact ⟨_,descendants_eq_range' found⟩
  · exact children_eq (List.getElem?_eq_some_iff.mp found).1

theorem descendants_structural_cut :
    let doc := Document.read "<ul><li><i>a</i><li><b>b</ul><p>c</p></b>".toList
    ∃ outer, doc.elements[0]? = some outer ∧ doc.descendants 0 = [1,2,3,4] ∧
      doc.descendants 0 = (List.range doc.elements.length).filter (fun j => (doc.ancestors j).contains 0) ∧
      doc.descendants 0 =
        doc.indicesWhere (fun inner => outer.start < inner.start && inner.start < outer.stop) := by
  intro doc
  have present : (doc.elements[0]?).isSome = true := by decide +kernel
  obtain ⟨outer,found⟩ := Option.isSome_iff_exists.mp present
  obtain ⟨links,places,_⟩ := (descendants_structural _ Filter.keep).1 0 outer found
  exact ⟨outer,found,by decide +kernel,links,places⟩

end Document

end AccessibleMarkup
