import AccessibleMarkup.Proofs.FaultlessRules
import AccessibleMarkup.Proofs.RoleGroups
import Mathlib.Order.Bounds.Basic
import Mathlib.Order.MinMax

/-! Levels of nested lists. The rule finds the level of a list from that of the nearest list around it; this is the
number of lists from the list outwards. Levels rise by one from list to list on each way into a list, so each way
that goes too deep passes one list of the first level that is not allowed. -/
namespace AccessibleMarkup

open Text Markup

namespace Rules.ListNestingDepth

def listsFrom (doc : Document) (i : Nat) : List Nat :=
  (i :: doc.ancestors i).filter (doc.holdsAt (·.hasRole "list"))

/-- The level of a list: the number of lists around it and itself. There is none unless all of them can be
trusted. -/
def level? (doc : Document) (i : Nat) : Option Nat :=
  if doc.holdsAt (·.hasRole "list") i && (listsFrom doc i).all (doc.holdsAt isPlaced) then
    some (listsFrom doc i).length
  else none

variable {source : List Char} {filter : Filter} {i j outer : Nat}

theorem listsFrom_of_nearest (role : (Document.read source filter).holdsAt (·.hasRole "list") i = true)
    (search : (Document.read source filter).nearestWithRole? i ["list"] = some outer) :
    listsFrom (Document.read source filter) i = i :: listsFrom (Document.read source filter) outer := by
  rw [Document.nearestWithRole?,Element.hasRoleIn_singleton] at search
  obtain ⟨_,front,back,parts,skipped⟩ := List.find?_eq_some_iff_append.mp search
  have none : front.filter ((Document.read source filter).holdsAt (·.hasRole "list")) = [] :=
    List.filter_eq_nil_iff.mpr fun other member => by simpa using skipped other member
  rw [listsFrom,listsFrom,List.filter_cons_of_pos role,parts,List.filter_append,none,List.nil_append,
    Document.ancestors_split parts]

theorem listsFrom_of_none {doc : Document} (role : doc.holdsAt (·.hasRole "list") i = true)
    (search : doc.nearestWithRole? i ["list"] = none) : listsFrom doc i = [i] := by
  have alone := Document.nearestWithRole?_eq_none_iff.mp search
  have none : (doc.ancestors i).filter (doc.holdsAt (·.hasRole "list")) = [] :=
    List.filter_eq_nil_iff.mpr fun other member => by rw [alone other member]; decide
  rw [listsFrom,List.filter_cons_of_pos role,none]

theorem listsFrom_of_ancestor (member : i ∈ (Document.read source filter).ancestors j) :
    ∃ inner, listsFrom (Document.read source filter) j =
      (j :: inner).filter ((Document.read source filter).holdsAt (·.hasRole "list")) ++
        listsFrom (Document.read source filter) i := by
  obtain ⟨front,back,parts⟩ := List.append_of_mem member
  refine ⟨front,?_⟩
  rw [listsFrom,listsFrom,parts,Document.ancestors_split parts,← List.filter_append,List.cons_append]

theorem level?_eq (role : (Document.read source filter).holdsAt (·.hasRole "list") i = true) :
    level? (Document.read source filter) i = if (Document.read source filter).holdsAt isPlaced i then
      match (Document.read source filter).nearestWithRole? i ["list"] with
      | some outer => (level? (Document.read source filter) outer).map (· + 1)
      | none => some 1
    else none := by
  cases search : (Document.read source filter).nearestWithRole? i ["list"] with
  | none =>
    rw [level?,role,listsFrom_of_none role search]
    simp
  | some outer =>
    have around := (Document.nearestWithRole?_eq_some_iff.mp search).role
    rw [Element.hasRoleIn_singleton] at around
    dsimp only
    rw [level?,level?,role,around,listsFrom_of_nearest role search,List.all_cons]
    cases (Document.read source filter).holdsAt isPlaced i with
    | false => rfl
    | true => cases (listsFrom (Document.read source filter) outer).all ((Document.read source filter).holdsAt isPlaced) <;> rfl

theorem nextLevel_eq {element : Element} (found : (Document.read source filter).elements[i]? = some element) :
    nextLevel (Document.read source filter) ((List.range i).map (level? (Document.read source filter))) element i =
      level? (Document.read source filter) i := by
  have here (condition : Element → Bool) : (Document.read source filter).holdsAt condition i = condition element := by
    rw [Document.holdsAt,found]
    rfl
  rw [nextLevel]
  cases role : element.hasRole "list" with
  | false => rw [level?,here,role]; rfl
  | true =>
    rw [level?_eq ((here _).trans role),here,Bool.true_and]
    cases search : (Document.read source filter).nearestWithRole? i ["list"] with
    | none => rfl
    | some outer =>
      have smaller := Document.lt_of_ancestors (Document.nearestWithRole?_eq_some_iff.mp search).around
      simp [List.getElem?_range smaller]

theorem levels_eq (source : List Char) (filter : Filter) : levels (Document.read source filter) =
    (List.range (Document.read source filter).elements.length).map (level? (Document.read source filter)) := by
  have passed (count : Nat) (inside : count ≤ (Document.read source filter).elements.length) :
      ((Document.read source filter).indexed.take count).foldl
        (fun before entry => before ++ [nextLevel (Document.read source filter) before entry.1 entry.2]) [] =
        (List.range count).map (level? (Document.read source filter)) := by
    induction count with
    | zero => rfl
    | succ count ih =>
      have found := List.getElem?_eq_getElem (Nat.lt_of_succ_le inside)
      have entry : (Document.read source filter).indexed[count]? =
          some ((Document.read source filter).elements[count],count) := by
        rw [Document.indexed,List.getElem?_zipIdx,found]
        simp
      rw [List.take_add_one,entry,List.foldl_append,ih (Nat.le_of_succ_le inside),Option.toList_some,
        List.foldl_cons,List.foldl_nil,nextLevel_eq found,List.range_succ,List.map_append]
      rfl
  have all := passed _ (Nat.le_refl _)
  rwa [List.take_of_length_le (by rw [Document.indexed,List.length_zipIdx])] at all

theorem getElem?_levels (source : List Char) (filter : Filter) (i : Nat) :
    ((levels (Document.read source filter))[i]?).join = level? (Document.read source filter) i := by
  rw [levels_eq,List.getElem?_map]
  by_cases inside : i < (Document.read source filter).elements.length
  · rw [List.getElem?_range inside]
    rfl
  · have nothing : (Document.read source filter).holdsAt (·.hasRole "list") i = false := by
      rw [Document.holdsAt,List.getElem?_eq_none (Nat.le_of_not_lt inside)]
      rfl
    rw [List.getElem?_eq_none (by simpa using inside),level?,nothing]
    rfl

theorem isGreatest_foldl_max (values : List Nat) (start : Nat) :
    IsGreatest {value | value = start ∨ value ∈ values} (values.foldl max start) := by
  rw [List.foldl_max]
  cases greatest : values.max? with
  | none => simp [List.max?_eq_none_iff.mp greatest,IsGreatest,upperBounds]
  | some most =>
    obtain ⟨member,bound⟩ := List.max?_eq_some_iff.mp greatest
    exact isGreatest_singleton.union (show IsGreatest {value | value ∈ values} most from ⟨member,bound⟩)

def levelsIn (doc : Document) (i : Nat) : Set Nat :=
  {level | ∃ j, (j = i ∨ i ∈ doc.ancestors j) ∧ level? doc j = some level}

theorem isGreatest_deepest {level : Nat} (found : level? (Document.read source filter) i = some level) :
    IsGreatest (levelsIn (Document.read source filter) i)
      (deepest (Document.read source filter) (levels (Document.read source filter)) i level) := by
  have same : levelsIn (Document.read source filter) i = {value | value = level ∨
      value ∈ ((Document.read source filter).descendants i).filterMap fun inner =>
        ((levels (Document.read source filter))[inner]?).join} := by
    ext value
    simp only [levelsIn,Set.mem_ofPred_eq,List.mem_filterMap,getElem?_levels,Document.mem_descendants,
      ← Document.mem_ancestors]
    constructor
    · rintro ⟨j,rfl | inside,here⟩
      · exact Or.inl (Option.some.inj (here.symm.trans found))
      · exact Or.inr ⟨j,inside,here⟩
    · rintro (rfl | ⟨j,inside,here⟩)
      · exact ⟨i,Or.inl rfl,found⟩
      · exact ⟨j,Or.inr inside,here⟩
  rw [same]
  exact isGreatest_foldl_max _ _

theorem level?_eq_some_iff {doc : Document} {level : Nat} : level? doc i = some level ↔
    doc.holdsAt (·.hasRole "list") i = true ∧ (listsFrom doc i).all (doc.holdsAt isPlaced) = true ∧
      (listsFrom doc i).length = level := by
  rw [level?,Option.ite_none_right_eq_some,Bool.and_eq_true,and_assoc,Option.some_inj]

theorem level_lt {one other : Nat} (member : i ∈ (Document.read source filter).ancestors j)
    (first : level? (Document.read source filter) i = some one)
    (second : level? (Document.read source filter) j = some other) : one < other := by
  obtain ⟨_,_,rfl⟩ := level?_eq_some_iff.mp first
  obtain ⟨role,_,rfl⟩ := level?_eq_some_iff.mp second
  obtain ⟨inner,parts⟩ := listsFrom_of_ancestor member
  rw [parts,List.filter_cons_of_pos role,List.length_append,List.length_cons]
  omega

theorem exists_level_below {level : Nat} (found : level? (Document.read source filter) i = some (level + 1))
    (positive : 0 < level) : ∃ outer ∈ (Document.read source filter).ancestors i,
      level? (Document.read source filter) outer = some level := by
  rw [level?_eq (level?_eq_some_iff.mp found).1] at found
  split_ifs at found
  split at found
  next outer search =>
    refine ⟨outer,(Document.nearestWithRole?_eq_some_iff.mp search).around,?_⟩
    obtain ⟨known,here,next⟩ := Option.map_eq_some_iff.mp found
    rw [here,Nat.succ.inj next]
  next =>
    have := Option.some.inj found
    omega

theorem exists_level {level lower : Nat} (found : level? (Document.read source filter) i = some level)
    (positive : 0 < lower) (bound : lower ≤ level) :
    ∃ j, (j = i ∨ j ∈ (Document.read source filter).ancestors i) ∧
      level? (Document.read source filter) j = some lower := by
  induction level generalizing i with
  | zero => omega
  | succ level ih =>
    rcases Nat.eq_or_lt_of_le bound with rfl | less
    · exact ⟨i,Or.inl rfl,found⟩
    · obtain ⟨outer,around,here⟩ := exists_level_below found (by omega)
      obtain ⟨j,place,reached⟩ := ih here (by omega)
      refine ⟨j,Or.inr ?_,reached⟩
      rcases place with rfl | further
      · exact around
      · exact Document.ancestors_trans further around

/-- The lists that are too deep by one level. -/
def tooDeep (doc : Document) (allowed : Nat) : List Nat :=
  (List.range doc.elements.length).filter fun i => level? doc i == some (allowed + 1)

theorem mem_tooDeep {doc : Document} {allowed : Nat} : i ∈ tooDeep doc allowed ↔ level? doc i = some (allowed + 1) := by
  rw [tooDeep,List.mem_filter,List.mem_range,beq_iff_eq]
  refine ⟨And.right,fun found => ⟨?_,found⟩⟩
  obtain ⟨element,present,_⟩ := doc.holdsAt_some _ _ (level?_eq_some_iff.mp found).1
  exact (List.getElem?_eq_some_iff.mp present).1

theorem check_eq (allowed : Nat) (head : RuleHead) (source : List Char) (filter : Filter) :
    check allowed head (Document.read source filter) =
      (tooDeep (Document.read source filter) allowed).filterMap
        (judge? allowed head (Document.read source filter) (levels (Document.read source filter))) := by
  rw [check,tooDeep,List.filterMap_filter]
  refine List.filterMap_congr fun i _ => ?_
  by_cases found : level? (Document.read source filter) i = some (allowed + 1)
  · rw [if_pos (beq_iff_eq.mpr found)]
  · rw [if_neg (by simpa using found),judge?,getElem?_levels,if_neg found]

/-- Where lists are nested too deeply, the outermost list that is too deep is reported, and no other, with the
greatest level that is reached in it. -/
theorem reported_once_per_branch (allowed : Nat) (head : RuleHead) (source : List Char) (filter : Filter) :
    let doc := Document.read source filter
    (∃ found, run allowed head doc = some found ∧
      List.Forall₂ (fun i violation => violation.location = doc.openTagLocation i ∧ ∃ reached,
          IsGreatest (levelsIn doc i) reached ∧
          violation.message = s!"Lists are nested {reached} levels deep here (maximum {allowed})")
        (tooDeep doc allowed) found) ∧
    (∀ i ∈ tooDeep doc allowed, ∀ j ∈ tooDeep doc allowed, i ∉ doc.ancestors j) ∧
    ∀ i level, level? doc i = some level → allowed < level →
      ∃! j, (j = i ∨ j ∈ doc.ancestors i) ∧ j ∈ tooDeep doc allowed := by
  intro doc
  have apart : ∀ i ∈ tooDeep doc allowed, ∀ j ∈ tooDeep doc allowed, i ∉ doc.ancestors j :=
    fun i first j second inside => Nat.lt_irrefl _ (level_lt inside (mem_tooDeep.mp first) (mem_tooDeep.mp second))
  refine ⟨⟨_,run_eq (Document.read_linked source filter) allowed head,?_⟩,apart,fun i level found deep => ?_⟩
  · rw [check_eq]
    refine forall₂_filterMap _ fun i member => ?_
    have found := mem_tooDeep.mp member
    refine ⟨_,by rw [judge?,getElem?_levels,if_pos found],rfl,_,isGreatest_deepest found,rfl⟩
  · obtain ⟨j,place,here⟩ := exists_level found (Nat.succ_pos allowed) deep
    refine ⟨j,⟨place,mem_tooDeep.mpr here⟩,?_⟩
    rintro other ⟨its,also⟩
    have outside := apart j (mem_tooDeep.mpr here) other also
    have inside := apart other also j (mem_tooDeep.mpr here)
    rcases its with rfl | its
    · rcases place with rfl | place
      · rfl
      · exact absurd place outside
    · rcases place with rfl | place
      · exact absurd its inside
      · exact (Document.ancestors_linear its place).resolve_right (not_or.mpr ⟨inside,outside⟩)

/-- The innermost of three lists is at the third level, and where one level is allowed the second is reported. -/
theorem reported_once_per_branch_three :
    let doc := Document.read "<ul><li><ol><li><ul></ul></li></ol></li></ul>".toList
    level? doc 4 = some 3 ∧ (∃! j, (j = 4 ∨ j ∈ doc.ancestors 4) ∧ j ∈ tooDeep doc 1) ∧ tooDeep doc 1 = [2] ∧
      (run 1 (head .info) doc).map (·.map (·.message)) = some ["Lists are nested 3 levels deep here (maximum 1)"] := by
  intro doc
  have level : level? doc 4 = some 3 := by decide +kernel
  obtain ⟨_,_,once⟩ := reported_once_per_branch 1 (head .info) _ Filter.keep
  exact ⟨level,once 4 3 level (by decide),by decide +kernel,by decide +kernel⟩

end Rules.ListNestingDepth

end AccessibleMarkup
