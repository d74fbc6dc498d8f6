import AccessibleMarkup.Document.Basic
import AccessibleMarkup.Proofs.Lexing
import AccessibleMarkup.Proofs.OutlineSteps

/-! The elements of a text form a forest in document order, however badly the text is written.

The invariant of the pass over the tags is `Outline.Reached`: the elements read so far form a forest,
the path is the chain of links to parents from its innermost element, every element on the path is
open up to the end of the text, and every other element has ended before the tags still to come.
Ending the innermost element and starting a new one keep it, and every tag does nothing else. -/
namespace AccessibleMarkup.Markup

open Text

def parentAt (nodes : List Node) (i : Nat) : Option Nat := nodes[i]?.bind (·.parent)

/-- The links to parents lead from the second element to the first. -/
inductive Encloses (nodes : List Node) : Nat → Nat → Prop
  | parent {outer inner : Nat} (link : parentAt nodes inner = some outer) : Encloses nodes outer inner
  | beyond {outer middle inner : Nat} (link : parentAt nodes inner = some middle)
      (rest : Encloses nodes outer middle) : Encloses nodes outer inner

theorem Encloses.mono {before after : List Node}
    (kept : ∀ i outer, parentAt before i = some outer → parentAt after i = some outer)
    {outer inner : Nat} (enclosed : Encloses before outer inner) : Encloses after outer inner := by
  induction enclosed with
  | parent link => exact .parent (kept _ _ link)
  | beyond link _ ih => exact .beyond (kept _ _ link) ih

def Node.Spans (length : Nat) (node : Node) : Prop :=
  node.start < node.openStop ∧ node.openStop ≤ node.closeStart ∧ node.closeStart ≤ node.stop ∧
    node.stop ≤ length

def Node.Placed (nodes : List Node) (i : Nat) (node : Node) : Prop :=
  match node.parent with
  | none => node.depth = 0
  | some p => p < i ∧ ∃ outer, nodes[p]? = some outer ∧ node.depth = outer.depth + 1 ∧
      outer.openStop ≤ node.start ∧ node.stop ≤ outer.closeStart

/-- Elements in document order, each nested in its parent and apart from all that do not enclose
it. -/
structure Forest (length : Nat) (nodes : List Node) : Prop where
  spans : ∀ (i : Nat) (node : Node), nodes[i]? = some node → node.Spans length
  placed : ∀ (i : Nat) (node : Node), nodes[i]? = some node → node.Placed nodes i
  rising : ∀ (i j : Nat) (first second : Node), nodes[i]? = some first →
    nodes[j]? = some second → i < j → first.start < second.start
  apart : ∀ (i j : Nat) (first second : Node), nodes[i]? = some first →
    nodes[j]? = some second → i < j → Encloses nodes i j ∨ first.stop ≤ second.start

/-- Each entry of the path is linked to the next and open up to the end of the text. -/
def Linked (length : Nat) (nodes : List Node) : List OpenNode → Prop
  | [] => True
  | entry :: outer =>
    (∃ node, nodes[entry.index]? = some node ∧ node.parent = outer.head?.map (·.index) ∧
      node.depth = outer.length ∧ node.closeStart = length ∧ node.stop = length) ∧
    Linked length nodes outer

/-- What holds after the tags of a text of the given length up to `position` have been read. -/
structure Outline.Reached (length position : Nat) (outline : Outline) : Prop where
  forest : Forest length outline.nodes
  inside : position ≤ length
  opened : ∀ (i : Nat) (node : Node), outline.nodes[i]? = some node → node.openStop ≤ position
  linked : Linked length outline.nodes outline.path
  ended : ∀ (i : Nat) (node : Node), outline.nodes[i]? = some node →
    (∀ entry ∈ outline.path, entry.index ≠ i) → node.stop ≤ position

theorem Forest.lt_iff {length : Nat} {nodes : List Node} (forest : Forest length nodes) {i j : Nat}
    {first second : Node} (found : nodes[i]? = some first) (other : nodes[j]? = some second) :
    i < j ↔ first.start < second.start := by
  refine ⟨forest.rising i j first second found other,fun before => ?_⟩
  rcases Nat.lt_trichotomy i j with less | rfl | more
  · exact less
  · obtain rfl := Option.some.inj (found.symm.trans other)
    exact absurd before (Nat.lt_irrefl _)
  · have after := forest.rising j i second first other found more
    exact absurd (Nat.lt_trans before after) (Nat.lt_irrefl _)

theorem Forest.index_of_start {length : Nat} {nodes : List Node} (forest : Forest length nodes) {i j : Nat}
    {first second : Node} (found : nodes[i]? = some first) (other : nodes[j]? = some second)
    (same : first.start = second.start) : i = j := by
  have before := forest.lt_iff found other
  have after := forest.lt_iff other found
  omega

theorem Linked.find {length : Nat} {nodes : List Node} {path : List OpenNode}
    (linked : Linked length nodes path) (entry : OpenNode) (member : entry ∈ path) :
    ∃ node, nodes[entry.index]? = some node ∧ node.closeStart = length ∧ node.stop = length := by
  induction path with
  | nil => contradiction
  | cons top outer ih =>
    obtain ⟨⟨node,found,_,_,closes,stops⟩,rest⟩ := linked
    rcases List.mem_cons.mp member with rfl | inside
    · exact ⟨node,found,closes,stops⟩
    · exact ih rest inside

/-- The elements of the path are the ones that enclose its innermost element. -/
theorem Linked.encloses {length : Nat} {nodes : List Node} {top : OpenNode} {outer : List OpenNode}
    (linked : Linked length nodes (top :: outer)) (entry : OpenNode) (member : entry ∈ outer) :
    Encloses nodes entry.index top.index := by
  induction outer generalizing top with
  | nil => contradiction
  | cons next outer ih =>
    obtain ⟨⟨node,found,link,_⟩,rest⟩ := linked
    have direct : parentAt nodes top.index = some next.index := by
      simp [parentAt,found,link]
    rcases List.mem_cons.mp member with rfl | further
    · exact .parent direct
    · exact .beyond direct (ih rest further)

theorem Encloses.lt {length : Nat} {nodes : List Node} (forest : Forest length nodes)
    {outer inner : Nat} (enclosed : Encloses nodes outer inner) : outer < inner := by
  have link {i p : Nat} (link : parentAt nodes i = some p) : p < i := by
    obtain ⟨node,found,parent⟩ := Option.bind_eq_some_iff.mp link
    have placed := forest.placed i node found
    rw [Node.Placed,parent] at placed
    exact placed.1
  induction enclosed with
  | parent direct => exact link direct
  | beyond direct _ ih => exact Nat.lt_trans ih (link direct)

theorem Encloses.inside {length : Nat} {nodes : List Node} (forest : Forest length nodes)
    {outer inner : Nat} (enclosed : Encloses nodes outer inner) (first second : Node)
    (found : nodes[outer]? = some first) (other : nodes[inner]? = some second) :
    first.openStop ≤ second.start ∧ second.stop ≤ first.closeStart := by
  have link {i p : Nat} {node : Node} (link : parentAt nodes i = some p) (present : nodes[i]? = some node) :
      ∃ around, nodes[p]? = some around ∧ around.openStop ≤ node.start ∧ node.stop ≤ around.closeStart := by
    have parent : node.parent = some p := by simpa [parentAt,present] using link
    have placed := forest.placed i node present
    rw [Node.Placed,parent] at placed
    obtain ⟨_,around,here,_,after,before⟩ := placed
    exact ⟨around,here,after,before⟩
  induction enclosed generalizing second with
  | parent direct =>
    obtain ⟨around,here,inside⟩ := link direct other
    obtain rfl := Option.some.inj (found.symm.trans here)
    exact inside
  | beyond direct _ ih =>
    obtain ⟨around,here,after,before⟩ := link direct other
    have inside := ih around here
    have spans := forest.spans _ around here
    unfold Node.Spans at spans
    omega

/-- A later element starts after the opening tag of an earlier one. -/
theorem Forest.openStop_le {length : Nat} {nodes : List Node} (forest : Forest length nodes)
    (i j : Nat) (first second : Node) (found : nodes[i]? = some first) (other : nodes[j]? = some second)
    (lower : i < j) : first.openStop ≤ second.start := by
  have spans := forest.spans i first found
  unfold Node.Spans at spans
  rcases forest.apart i j first second found other lower with inside | outside
  · exact (inside.inside forest first second found other).1
  · omega

theorem Linked.lt {length : Nat} {nodes : List Node} {top : OpenNode} {outer : List OpenNode}
    (forest : Forest length nodes) (linked : Linked length nodes (top :: outer))
    (entry : OpenNode) (member : entry ∈ outer) : entry.index < top.index :=
  (linked.encloses entry member).lt forest

theorem Linked.congr {length : Nat} {before after : List Node} {path : List OpenNode}
    (same : ∀ entry ∈ path, after[entry.index]? = before[entry.index]?)
    (linked : Linked length before path) : Linked length after path := by
  induction path with
  | nil => trivial
  | cons top outer ih =>
    obtain ⟨⟨node,found,rest⟩,tail⟩ := linked
    refine ⟨⟨node,?_,rest⟩,ih (fun entry member => same entry (List.mem_cons_of_mem _ member)) tail⟩
    rw [same top List.mem_cons_self]
    exact found

/-- An element with another end. -/
structure Node.EndsAs (before after : Node) (closeStart stop : Nat) : Prop where
  start : after.start = before.start
  openStop : after.openStop = before.openStop
  parent : after.parent = before.parent
  depth : after.depth = before.depth
  closeStart : after.closeStart = closeStart
  stop : after.stop = stop

theorem Node.endsAs_endAt (node : Node) (offset : Nat) (extent : Extent) :
    node.EndsAs (node.endAt offset extent) offset offset := ⟨rfl,rfl,rfl,rfl,rfl,rfl⟩

theorem Node.endsAs_closeWith (node : Node) (tag : Tag) :
    node.EndsAs (node.closeWith tag) tag.start tag.stop := ⟨rfl,rfl,rfl,rfl,rfl,rfl⟩

theorem getElem?_modify_some {nodes : List Node} {k i : Nat} {change : Node → Node} {after : Node}
    (found : (nodes.modify k change)[i]? = some after) :
    ∃ before, nodes[i]? = some before ∧ after = if k = i then change before else before := by
  rw [List.getElem?_modify] at found
  obtain ⟨before,present,rfl⟩ := Option.map_eq_some_iff.mp found
  exact ⟨before,present,rfl⟩

theorem getElem?_modify_of_ne {nodes : List Node} {k i : Nat} (change : Node → Node) (other : k ≠ i) :
    (nodes.modify k change)[i]? = nodes[i]? := by
  rw [List.getElem?_modify]
  cases nodes[i]? <;> simp [other]

theorem parentAt_modify {nodes : List Node} {k : Nat} {change : Node → Node}
    (kept : ∀ node, (change node).parent = node.parent) (i : Nat) :
    parentAt (nodes.modify k change) i = parentAt nodes i := by
  unfold parentAt
  rw [List.getElem?_modify]
  cases nodes[i]? with
  | none => rfl
  | some node =>
    by_cases same : k = i
    · simp [same,kept]
    · simp [same]

theorem Forest.placed_modify {length : Nat} {nodes : List Node} (forest : Forest length nodes)
    {k closeStart stop : Nat} {node : Node} (found : nodes[k]? = some node)
    (change : Node → Node) (changed : ∀ node : Node, node.EndsAs (change node) closeStart stop)
    (within : ∀ p outer, node.parent = some p → nodes[p]? = some outer → stop ≤ outer.closeStart)
    (contents : ∀ (i : Nat) (child : Node), nodes[i]? = some child → child.parent = some k →
      child.stop ≤ closeStart) {i : Nat} {final : Node} (present : (nodes.modify k change)[i]? = some final) :
    Node.Placed (nodes.modify k change) i final := by
  obtain ⟨before,old,rfl⟩ := getElem?_modify_some present
  have placed := forest.placed i before old
  unfold Node.Placed at placed ⊢
  split_ifs with same
  · -- The element itself: its end is compared with that of its parent.
    subst same
    obtain rfl := Option.some.inj (old.symm.trans found)
    have new := changed before
    rw [new.parent,new.depth,new.start,new.stop]
    cases parent : before.parent with
    | none => simpa only [parent] using placed
    | some p =>
      rw [parent] at placed
      obtain ⟨smaller,around,present,deeper,starts,_⟩ := placed
      refine ⟨smaller,around,?_,deeper,starts,within p around parent present⟩
      rwa [getElem?_modify_of_ne change (Nat.ne_of_gt smaller)]
  · cases parent : before.parent with
    | none => simpa only [parent] using placed
    | some p =>
      rw [parent] at placed
      obtain ⟨smaller,around,present,deeper,starts,stops⟩ := placed
      by_cases inner : k = p
      · -- An element in it: the new end is the one of its parent.
        subst inner
        have new := changed around
        refine ⟨smaller,change around,?_,?_,?_,?_⟩
        · rw [List.getElem?_modify_eq,present]; rfl
        · rw [new.depth]; exact deeper
        · rw [new.openStop]; exact starts
        · rw [new.closeStart]; exact contents i before old parent
      · refine ⟨smaller,around,?_,deeper,starts,stops⟩
        rwa [getElem?_modify_of_ne change inner]

/-- An open element of a forest can end after all that stands in it. -/
theorem Forest.modify {length : Nat} {nodes : List Node} (forest : Forest length nodes)
    {k closeStart stop : Nat} {node : Node} (found : nodes[k]? = some node)
    (change : Node → Node) (changed : ∀ node : Node, node.EndsAs (change node) closeStart stop)
    (after : node.openStop ≤ closeStart) (ordered : closeStart ≤ stop) (inside : stop ≤ length)
    (isOpen : node.stop = length)
    (within : ∀ p outer, node.parent = some p → nodes[p]? = some outer → stop ≤ outer.closeStart)
    (contents : ∀ (i : Nat) (child : Node), nodes[i]? = some child → child.parent = some k →
      child.stop ≤ closeStart) :
    Forest length (nodes.modify k change) where
  spans i final present := by
    obtain ⟨before,old,rfl⟩ := getElem?_modify_some present
    have spans := forest.spans i before old
    split_ifs with same
    · subst same
      obtain rfl := Option.some.inj (old.symm.trans found)
      have new := changed before
      rw [Node.Spans,new.start,new.openStop,new.closeStart,new.stop]
      exact ⟨spans.1,after,ordered,inside⟩
    · exact spans
  placed i final present := forest.placed_modify found change changed within contents present
  rising i j first second present other lower := by
    obtain ⟨before,old,rfl⟩ := getElem?_modify_some present
    obtain ⟨second,later,rfl⟩ := getElem?_modify_some other
    have rising := forest.rising i j before second old later lower
    split_ifs <;> simpa only [(changed _).start] using rising
  apart i j first second present other lower := by
    obtain ⟨before,old,rfl⟩ := getElem?_modify_some present
    obtain ⟨second,later,rfl⟩ := getElem?_modify_some other
    rcases forest.apart i j before second old later lower with inner | disjoint
    · refine Or.inl (inner.mono fun m p parent => ?_)
      rwa [parentAt_modify fun node => (changed node).parent]
    · right
      have spans := forest.spans j second later
      have started : ∀ node : Node, (if k = j then change node else node).start = node.start := by
        intro node
        split_ifs
        · exact (changed node).start
        · rfl
      rw [started]
      split_ifs with same
      · -- An element that was open up to the end of the text had nothing after it.
        subst same
        obtain rfl := Option.some.inj (old.symm.trans found)
        unfold Node.Spans at spans
        omega
      · exact disjoint

theorem getElem?_append_some {nodes : List Node} {i : Nat} {node last : Node}
    (found : (nodes ++ [last])[i]? = some node) :
    nodes[i]? = some node ∨ (i = nodes.length ∧ node = last) := by
  rcases Nat.lt_trichotomy i nodes.length with below | rfl | above
  · left
    rwa [List.getElem?_append_left below] at found
  · right
    rw [List.getElem?_concat_length] at found
    exact ⟨rfl,(Option.some.inj found).symm⟩
  · rw [List.getElem?_eq_none (by simp; omega)] at found
    contradiction

theorem getElem?_append_of_some {nodes : List Node} {i : Nat} {node : Node} (last : Node)
    (found : nodes[i]? = some node) : (nodes ++ [last])[i]? = some node := by
  rw [List.getElem?_append_left (List.getElem?_eq_some_iff.mp found).1]
  exact found

theorem parentAt_append {nodes : List Node} {i p : Nat} (last : Node)
    (link : parentAt nodes i = some p) : parentAt (nodes ++ [last]) i = some p := by
  obtain ⟨node,found,parent⟩ := Option.bind_eq_some_iff.mp link
  simp [parentAt,getElem?_append_of_some last found,parent]

/-- A new element can follow after every element that does not enclose it. -/
theorem Forest.append {length : Nat} {nodes : List Node} (forest : Forest length nodes) (last : Node)
    (spans : last.Spans length) (placed : last.Placed nodes nodes.length)
    (rising : ∀ (i : Nat) (node : Node), nodes[i]? = some node → node.start < last.start)
    (apart : ∀ (i : Nat) (node : Node), nodes[i]? = some node →
      Encloses (nodes ++ [last]) i nodes.length ∨ node.stop ≤ last.start) :
    Forest length (nodes ++ [last]) where
  spans i node found := by
    rcases getElem?_append_some found with old | ⟨rfl,rfl⟩
    · exact forest.spans i node old
    · exact spans
  placed i node found := by
    have kept {i : Nat} {node : Node} (placed : node.Placed nodes i) :
        node.Placed (nodes ++ [last]) i := by
      unfold Node.Placed at placed ⊢
      cases parent : node.parent with
      | none => simpa only [parent] using placed
      | some p =>
        rw [parent] at placed
        obtain ⟨smaller,outer,present,rest⟩ := placed
        exact ⟨smaller,outer,getElem?_append_of_some last present,rest⟩
    rcases getElem?_append_some found with old | ⟨rfl,rfl⟩
    · exact kept (forest.placed i node old)
    · exact kept placed
  rising i j first second found other lower := by
    have bound := (List.getElem?_eq_some_iff.mp other).1
    simp only [List.length_append,List.length_singleton] at bound
    have old : nodes[i]? = some first := by
      rwa [List.getElem?_append_left (by omega)] at found
    rcases getElem?_append_some other with later | ⟨rfl,rfl⟩
    · exact forest.rising i j first second old later lower
    · exact rising i first old
  apart i j first second found other lower := by
    have bound := (List.getElem?_eq_some_iff.mp other).1
    simp only [List.length_append,List.length_singleton] at bound
    have old : nodes[i]? = some first := by
      rwa [List.getElem?_append_left (by omega)] at found
    rcases getElem?_append_some other with later | ⟨rfl,rfl⟩
    · rcases forest.apart i j first second old later lower with inner | disjoint
      · exact Or.inl (inner.mono fun m p parent => parentAt_append last parent)
      · exact Or.inr disjoint
    · exact apart i first old

namespace Outline

theorem Reached.advance {length position next : Nat} {outline : Outline}
    (reached : outline.Reached length position) (later : position ≤ next) (inside : next ≤ length) :
    outline.Reached length next where
  forest := reached.forest
  inside := inside
  opened i node found := Nat.le_trans (reached.opened i node found) later
  linked := reached.linked
  ended i node found apart := Nat.le_trans (reached.ended i node found apart) later

/-- Ending the innermost open element keeps the invariant: all that stands in it has ended, and the
element around it is still open. -/
theorem Reached.endTop {length position closeStart stop : Nat} {outline : Outline}
    {top : OpenNode} {outer : List OpenNode} (reached : outline.Reached length position)
    (path : outline.path = top :: outer) (change : Node → Node)
    (changed : ∀ node : Node, node.EndsAs (change node) closeStart stop)
    (later : position ≤ closeStart) (ordered : closeStart ≤ stop) (inside : stop ≤ length)
    (owed : List String) :
    Reached length stop ⟨outline.nodes.modify top.index change,outer,owed⟩ := by
  have linked := reached.linked
  rw [path] at linked
  have below := linked.lt reached.forest
  obtain ⟨⟨node,found,link,_,_,isOpen⟩,rest⟩ := linked
  refine { forest := ?forest, inside, opened := ?opened, linked := ?linked, ended := ?ended }
  case forest =>
    apply reached.forest.modify found change changed _ ordered inside isOpen
    · intro p around parent present
      rw [link] at parent
      obtain ⟨next,head,rfl⟩ := Option.map_eq_some_iff.mp parent
      obtain ⟨same,again,closes,_⟩ := rest.find next (List.mem_of_mem_head? head)
      obtain rfl := Option.some.inj (present.symm.trans again)
      omega
    · intro i child present parent
      have placed := reached.forest.placed i child present
      rw [Node.Placed,parent] at placed
      have ended := reached.ended i child present
      rw [path] at ended
      have stopped : child.stop ≤ position := by
        apply ended
        intro entry member
        rcases List.mem_cons.mp member with rfl | further
        · exact Nat.ne_of_lt placed.1
        · exact Nat.ne_of_lt (Nat.lt_trans (below entry further) placed.1)
      omega
    · exact Nat.le_trans (reached.opened _ node found) later
  case opened =>
    intro i after present
    obtain ⟨before,old,rfl⟩ := getElem?_modify_some present
    have opened := reached.opened i before old
    split_ifs
    · rw [(changed before).openStop]; omega
    · omega
  case linked =>
    apply rest.congr
    intro entry member
    exact getElem?_modify_of_ne change (Nat.ne_of_gt (below entry member))
  case ended =>
    intro i after present apart
    obtain ⟨before,old,rfl⟩ := getElem?_modify_some present
    split_ifs with same
    · exact Nat.le_of_eq (changed before).stop
    · have ended := reached.ended i before old
      rw [path] at ended
      have stopped := ended (by simpa [same] using apart)
      omega

theorem Reached.endAll {length position offset : Nat} {outline : Outline}
    {inner outer : List OpenNode} (reached : outline.Reached length position)
    (path : outline.path = inner ++ outer) (extent : OpenNode → Extent)
    (later : position ≤ offset) (inside : offset ≤ length) (owed : List String) :
    Reached length offset ⟨Outline.endAll outline.nodes inner offset extent,outer,owed⟩ := by
  induction inner generalizing outline position with
  | nil =>
    have advanced := reached.advance later inside
    rw [List.nil_append] at path
    exact ⟨advanced.forest,inside,advanced.opened,path ▸ advanced.linked,path ▸ advanced.ended⟩
  | cons top inner ih =>
    have ended := reached.endTop path (·.endAt offset (extent top))
      (fun node => node.endsAs_endAt offset (extent top)) later (Nat.le_refl _) inside owed
    exact ih ended rfl (Nat.le_refl _)

theorem Reached.sibling {length position offset : Nat} {outline next : Outline} {name : String}
    (reached : outline.Reached length position) (sibling : outline.SiblingStep name offset next)
    (later : position ≤ offset) (inside : offset ≤ length) : next.Reached length offset := by
  cases sibling with
  | stays => exact reached.advance later inside
  | ends top outer path =>
    have single : outline.path = [top] ++ outer := path
    exact reached.endAll single _ later inside outline.owed

theorem Reached.encloses_or_ended {length position : Nat} {outline : Outline}
    (reached : outline.Reached length position) (node : Node)
    (parent : node.parent = outline.path.head?.map (·.index))
    (linked : Linked length (outline.nodes ++ [node]) outline.path) (i : Nat) (earlier : Node)
    (found : outline.nodes[i]? = some earlier) :
    Encloses (outline.nodes ++ [node]) i outline.nodes.length ∨ earlier.stop ≤ position := by
  by_cases enclosing : ∃ entry ∈ outline.path, entry.index = i
  · left
    obtain ⟨entry,member,rfl⟩ := enclosing
    cases path : outline.path with
    | nil => simp [path] at member
    | cons top outer =>
      have direct : parentAt (outline.nodes ++ [node]) outline.nodes.length = some top.index := by
        simp [parentAt,parent,path]
      rw [path] at member linked
      rcases List.mem_cons.mp member with rfl | further
      · exact .parent direct
      · exact .beyond direct (linked.encloses entry further)
  · right
    exact reached.ended i earlier found (by simpa using enclosing)

theorem Reached.start {length position next : Nat} {outline : Outline}
    (reached : outline.Reached length position) (node : Node) (tail : List OpenNode)
    (after : position ≤ node.start) (nonempty : node.start < next) (opens : node.openStop = next)
    (inside : next ≤ length) (closes : node.closeStart = node.stop)
    (parent : node.parent = outline.path.head?.map (·.index))
    (depth : node.depth = outline.path.length)
    (kept : (∃ name, tail = ⟨outline.nodes.length,name⟩ :: outline.path ∧ node.stop = length) ∨
      (tail = outline.path ∧ node.stop = next)) :
    Reached length next ⟨outline.nodes ++ [node],tail,outline.owed⟩ := by
  have fresh : ∀ entry ∈ outline.path, entry.index < outline.nodes.length := by
    intro entry member
    obtain ⟨open_,found,_⟩ := reached.linked.find entry member
    exact (List.getElem?_eq_some_iff.mp found).1
  have stops : next ≤ node.stop ∧ node.stop ≤ length := by
    rcases kept with ⟨_,_,atEnd⟩ | ⟨_,atTag⟩ <;> omega
  have linked : Linked length (outline.nodes ++ [node]) outline.path := by
    apply reached.linked.congr
    intro entry member
    exact List.getElem?_append_left (fresh entry member)
  refine { forest := ?forest, inside, opened := ?opened, linked := ?linked, ended := ?ended }
  case forest =>
    apply reached.forest.append node ⟨by omega,by omega,by omega,stops.2⟩
    · rw [Node.Placed,parent]
      cases path : outline.path with
      | nil => simp [depth,path]
      | cons top outer =>
        have open_ := reached.linked
        rw [path] at open_
        obtain ⟨⟨around,found,_,deep,closed,_⟩,_⟩ := open_
        have opened := reached.opened _ around found
        refine ⟨fresh top (by simp [path]),around,found,?_,by omega,by omega⟩
        simp [depth,path,deep]
    · intro i earlier found
      have spans := reached.forest.spans i earlier found
      have opened := reached.opened i earlier found
      unfold Node.Spans at spans
      omega
    · intro i earlier found
      exact (reached.encloses_or_ended node parent linked i earlier found).imp_right fun ended => by omega
  case opened =>
    intro i earlier found
    rcases getElem?_append_some found with old | ⟨rfl,rfl⟩
    · have opened := reached.opened i earlier old
      omega
    · exact Nat.le_of_eq opens
  case linked =>
    rcases kept with ⟨name,rfl,atEnd⟩ | ⟨rfl,_⟩
    · exact ⟨⟨node,by simp,parent,depth,by omega,atEnd⟩,linked⟩
    · exact linked
  case ended =>
    intro i earlier found apart
    rcases getElem?_append_some found with old | ⟨rfl,rfl⟩
    · have stopped := reached.ended i earlier old
      rcases kept with ⟨name,rfl,_⟩ | ⟨rfl,_⟩
      · have := stopped fun entry member => apart entry (List.mem_cons_of_mem _ member)
        omega
      · have := stopped apart
        omega
    · rcases kept with ⟨name,rfl,_⟩ | ⟨_,atTag⟩
      · exact absurd rfl (apart _ List.mem_cons_self)
      · omega

theorem openingExtent_eq_unterminated_iff (tag : Tag) (selfClosing : Bool) (name : String) :
    openingExtent tag selfClosing name = .unterminated ↔
      tag.terminated = false ∨ hasContent tag selfClosing name = true := by
  unfold openingExtent hasContent
  cases tag.terminated <;> cases selfClosing <;> cases isVoid name <;> simp

theorem Reached.enter {length position : Nat} {outline before : Outline} {tag : Tag}
    (reached : outline.Reached length position) (between : tag.Between position length)
    (sibling : outline.SiblingStep (Text.asciiLower tag.name) tag.start before) (selfClosing : Bool) :
    (before.enter length tag selfClosing).Reached length tag.stop := by
  obtain ⟨after,nonempty,inside,cutOff⟩ := between
  have passed := reached.sibling sibling after (by omega)
  have ends := openingExtent_eq_unterminated_iff tag selfClosing (Text.asciiLower tag.name)
  unfold Outline.enter
  dsimp only
  refine passed.start _ _ (Nat.le_refl _) nonempty ?_ inside ?_ ?_ ?_ ?_
  · rfl
  · rfl
  · rfl
  · rfl
  · dsimp only
    split_ifs with content open_ open_
    · exact Or.inl ⟨_,rfl,rfl⟩
    · exact absurd (ends.mpr (Or.inr content)) open_
    · have unterminated := (ends.mp open_).resolve_right content
      exact Or.inr ⟨rfl,(cutOff unterminated).symm⟩
    · exact Or.inr ⟨rfl,rfl⟩

theorem Reached.closing {length position : Nat} {outline next : Outline} {tag : Tag}
    (reached : outline.Reached length position) (between : tag.Between position length)
    (closing : outline.ClosingStep tag next) : next.Reached length tag.stop := by
  obtain ⟨after,nonempty,inside,_⟩ := between
  cases closing with
  | closes inner closed outer path =>
    have left := reached.endAll path innerExtent after (by omega) outline.owed
    exact left.endTop rfl (·.closeWith tag) (fun node => node.endsAs_closeWith tag)
      (Nat.le_refl _) (by omega) inside _
  | pays =>
    have advanced := reached.advance (by omega) inside
    exact ⟨advanced.forest,inside,advanced.opened,advanced.linked,advanced.ended⟩
  | strays =>
    have all := reached.endAll (List.append_nil _).symm (fun _ => .crossed) after (by omega)
      (outline.path.map (·.name) ++ outline.owed)
    exact all.advance (by omega) inside

theorem Reached.step {length position : Nat} {outline next : Outline} {tag : Tag}
    (reached : outline.Reached length position) (between : tag.Between position length)
    (step : Step length outline tag next) : next.Reached length tag.stop := by
  cases step with
  | opening selfClosing _ before sibling => exact reached.enter between sibling selfClosing
  | closing _ next closing => exact reached.closing between closing
  | markup =>
    obtain ⟨after,nonempty,inside,_⟩ := between
    exact reached.advance (by omega) inside

theorem Reached.read {length position : Nat} {outline : Outline} {tag : Tag}
    (reached : outline.Reached length position) (between : tag.Between position length) :
    (outline.read length tag).Reached length tag.stop := reached.step between (outline.step tag length)

theorem Reached.readAll {length position : Nat} {outline : Outline} {tags : List Tag}
    (reached : outline.Reached length position) (ordered : TagsInOrder length position tags) :
    ∃ last, (tags.foldl (Outline.read length) outline).Reached length last := by
  induction tags generalizing outline position with
  | nil => exact ⟨position,reached⟩
  | cons tag rest ih => exact ih (reached.read ordered.1) ordered.2

theorem Reached.readFront {length position : Nat} {outline : Outline} {tag : Tag} {front rest : List Tag}
    (reached : outline.Reached length position) (ordered : TagsInOrder length position (front ++ tag :: rest)) :
    (front.foldl (Outline.read length) outline).Reached length tag.start := by
  induction front generalizing outline position with
  | nil =>
    obtain ⟨after,nonempty,inside,_⟩ := ordered.1
    exact reached.advance after (Nat.le_trans (Nat.le_of_lt nonempty) inside)
  | cons first front ih => exact ih (reached.read ordered.1) ordered.2

theorem reached_start (length : Nat) : Reached length 0 {} := by
  refine ⟨⟨?_,?_,?_,?_⟩,Nat.zero_le _,?_,trivial,?_⟩ <;> simp

end Outline

theorem outlineNodes_forest (text : List Char) : Forest (byteLength text) (outlineNodes text) := by
  obtain ⟨last,reached⟩ := (Outline.reached_start _).readAll (lex_inOrder text)
  exact reached.forest

theorem elements_getElem? (text : List Char) (i : Nat) :
    (elements text)[i]? = (outlineNodes text)[i]?.map (Element.ofNode text) := by
  simp [elements]

theorem parent_of_elements (text : List Char) (i : Nat) :
    (elements text)[i]?.bind (·.parent) = parentAt (outlineNodes text) i := by
  rw [elements_getElem?,parentAt]
  cases (outlineNodes text)[i]? <;> rfl

/-- Following the links to parents finds each enclosing element once; as each link leads to a smaller
index, as many steps as the index suffice. -/
theorem mem_ancestorsWithin (text : List Char) (steps i outer : Nat) (enough : i ≤ steps) :
    outer ∈ Document.ancestorsWithin (elements text) steps i ↔
      Encloses (outlineNodes text) outer i := by
  have smaller {i p : Nat} (link : parentAt (outlineNodes text) i = some p) : p < i :=
    (Encloses.parent link).lt (outlineNodes_forest text)
  induction steps generalizing i with
  | zero =>
    obtain rfl : i = 0 := by omega
    have none : ∀ p, parentAt (outlineNodes text) 0 ≠ some p := fun p link => by
      have := smaller link
      omega
    constructor
    · intro member
      simp [Document.ancestorsWithin] at member
    · intro enclosed
      cases enclosed with
      | parent link => exact absurd link (none _)
      | beyond link _ => exact absurd link (none _)
  | succ steps ih =>
    rw [Document.ancestorsWithin,parent_of_elements]
    cases link : parentAt (outlineNodes text) i with
    | none =>
      constructor
      · intro member
        simp at member
      · intro enclosed
        cases enclosed with
        | parent other => rw [link] at other; contradiction
        | beyond other _ => rw [link] at other; contradiction
    | some p =>
      have below := smaller link
      have further := ih p (by omega)
      simp only [List.mem_cons,further]
      constructor
      · rintro (rfl | inner)
        · exact .parent link
        · exact .beyond link inner
      · intro enclosed
        cases enclosed with
        | parent other => rw [link] at other; exact Or.inl (Option.some.inj other).symm
        | beyond other inner =>
          rw [link] at other
          exact Or.inr (Option.some.inj other ▸ inner)

theorem length_ancestorsWithin (text : List Char) (steps i : Nat) (node : Node)
    (found : (outlineNodes text)[i]? = some node) (enough : i ≤ steps) :
    (Document.ancestorsWithin (elements text) steps i).length = node.depth := by
  induction steps generalizing i node with
  | zero =>
    have placed := (outlineNodes_forest text).placed i node found
    unfold Node.Placed at placed
    cases parent : node.parent with
    | none => simp_all [Document.ancestorsWithin]
    | some p =>
      rw [parent] at placed
      have := placed.1
      omega
  | succ steps ih =>
    have placed := (outlineNodes_forest text).placed i node found
    rw [Document.ancestorsWithin,parent_of_elements,parentAt,found,Option.bind_some]
    unfold Node.Placed at placed
    cases parent : node.parent with
    | none => simp_all
    | some p =>
      rw [parent] at placed
      obtain ⟨smaller,outer,present,deeper,_⟩ := placed
      simp [ih p outer present (by omega),deeper]

/-- A list of elements in the order of their opening tags, nested in one another or apart. -/
structure PreorderForest (length : Nat) (found : List Element) : Prop where
  rising : found.Pairwise fun first second => first.start < second.start
  spans : ∀ element ∈ found, element.start < element.openStop ∧
    element.openStop ≤ element.closeStart ∧ element.closeStart ≤ element.stop ∧
    element.stop ≤ length
  parentBefore : ∀ (i p : Nat) (element : Element), found[i]? = some element →
    element.parent = some p → p < i
  inParent : ∀ (i p : Nat) (element : Element), found[i]? = some element →
    element.parent = some p → ∃ outer, found[p]? = some outer ∧
      outer.openStop ≤ element.start ∧ element.stop ≤ outer.closeStart
  depth : ∀ (i : Nat) (element : Element), found[i]? = some element →
    element.depth = (Document.ancestorsWithin found found.length i).length
  laminar : ∀ (i j : Nat) (first second : Element), found[i]? = some first →
    found[j]? = some second → i ≠ j →
    i ∈ Document.ancestorsWithin found found.length j ∨
      j ∈ Document.ancestorsWithin found found.length i ∨
      first.stop ≤ second.start ∨ second.stop ≤ first.start

/-- The elements of any text, well formed or not, are the preorder of a forest of ranges. -/
theorem elements_preorderForest (text : List Char) :
    PreorderForest (byteLength text) (elements text) := by
  have forest := outlineNodes_forest text
  have node {i : Nat} {element : Element} (found : (elements text)[i]? = some element) :
      ∃ node, (outlineNodes text)[i]? = some node ∧ element.toNode = node := by
    rw [elements_getElem?] at found
    obtain ⟨node,present,rfl⟩ := Option.map_eq_some_iff.mp found
    exact ⟨node,present,rfl⟩
  have bound {i : Nat} {element : Element} (found : (elements text)[i]? = some element) :
      i ≤ (elements text).length := Nat.le_of_lt (List.getElem?_eq_some_iff.mp found).1
  have placed {i p : Nat} {element : Element} (found : (elements text)[i]? = some element)
      (link : element.parent = some p) : p < i ∧ ∃ outer, (elements text)[p]? = some outer ∧
        outer.openStop ≤ element.start ∧ element.stop ≤ outer.closeStart := by
    obtain ⟨inner,present,rfl⟩ := node found
    have placed := forest.placed i _ present
    rw [Node.Placed,link] at placed
    obtain ⟨smaller,outer,around,_,starts,stops⟩ := placed
    exact ⟨smaller,Element.ofNode text outer,by rw [elements_getElem?,around]; rfl,starts,stops⟩
  have apart {i j : Nat} {first second : Element} (found : (elements text)[i]? = some first)
      (other : (elements text)[j]? = some second) (lower : i < j) :
      i ∈ Document.ancestorsWithin (elements text) (elements text).length j ∨
        first.stop ≤ second.start := by
    obtain ⟨outer,present,rfl⟩ := node found
    obtain ⟨inner,later,rfl⟩ := node other
    rw [mem_ancestorsWithin text _ j i (bound other)]
    exact forest.apart i j _ _ present later lower
  refine ⟨?_,?_,fun i p element found link => (placed found link).1,
    fun i p element found link => (placed found link).2,?_,?_⟩
  · rw [List.pairwise_iff_getElem]
    intro i j left right lower
    obtain ⟨first,present,same⟩ := node (List.getElem?_eq_getElem left)
    obtain ⟨second,later,equal⟩ := node (List.getElem?_eq_getElem right)
    rw [same,equal]
    exact forest.rising i j first second present later lower
  · intro element member
    obtain ⟨i,found⟩ := List.mem_iff_getElem?.mp member
    obtain ⟨inner,present,rfl⟩ := node found
    exact forest.spans i _ present
  · intro i element found
    obtain ⟨inner,present,rfl⟩ := node found
    exact (length_ancestorsWithin text _ i _ present (bound found)).symm
  · intro i j first second found other distinct
    rcases Nat.lt_or_gt_of_ne distinct with lower | higher
    · rcases apart found other lower with inner | disjoint
      · exact Or.inl inner
      · exact Or.inr (Or.inr (Or.inl disjoint))
    · rcases apart other found higher with inner | disjoint
      · exact Or.inr (Or.inl inner)
      · exact Or.inr (Or.inr (Or.inr disjoint))

end AccessibleMarkup.Markup
