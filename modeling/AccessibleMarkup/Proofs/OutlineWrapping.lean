import AccessibleMarkup.Proofs.ElementEnds
import AccessibleMarkup.Proofs.WrappedTags

/-! The outline of the tags of a text in which an element stands in a new list. The two outlines are read side by
side, first in the element and then behind it: every tag does the same in both, and the second outline has the list
besides. -/
namespace AccessibleMarkup.Markup

open Text

/-- The place of an element that is put into a new list: where it starts and stops, and its number. -/
structure Wrapping where
  start : Nat
  stop : Nat
  index : Nat
  deriving DecidableEq, Repr

namespace Wrapping

def Holds (place : Wrapping) (start : Nat) : Prop := place.start ≤ start ∧ start < place.stop

instance (place : Wrapping) (start : Nat) : Decidable (place.Holds start) :=
  inferInstanceAs (Decidable (_ ∧ _))

def number (place : Wrapping) (i : Nat) : Nat := if i < place.index then i else i + 1

/-- Where an offset of an element comes to stand that starts at `start`. -/
def move (place : Wrapping) (start offset : Nat) : Nat :=
  if place.Holds start then offset + 4
  else if offset ≤ place.start then offset
  else offset + 9

/-- An element of the text where the list has been put in. -/
def node (place : Wrapping) (node : Node) : Node :=
  { node.shift (place.move node.start) with
    parent := if node.start = place.start then some place.index else node.parent.map place.number
    depth := if place.Holds node.start then node.depth + 1 else node.depth }

/-- The new list, which takes the place of the element in its parent. -/
def list (place : Wrapping) (node : Node) : Node where
  name := "ul"
  start := place.start
  openStop := place.start + 4
  closeStart := place.stop + 4
  stop := place.stop + 9
  extent := .closed
  parent := node.parent
  depth := node.depth
  detached := node.detached

def entry (place : Wrapping) (entry : OpenNode) : OpenNode := { entry with index := place.number entry.index }

/-- An element of an outline that is not complete yet, in a text of the given length. -/
def carry (place : Wrapping) (length : Nat) (node : Node) : Node := (place.node node).openTo length

variable {place : Wrapping}

theorem number_ne_index (place : Wrapping) (i : Nat) : place.number i ≠ place.index := by
  unfold number
  split_ifs <;> omega

theorem number_injective (place : Wrapping) {i j : Nat} (same : place.number i = place.number j) : i = j := by
  unfold number at same
  split_ifs at same <;> omega

theorem carry_endAt (place : Wrapping) (length : Nat) (node : Node) (offset : Nat) {extent : Extent}
    (known : extent ≠ .unterminated) : place.carry length (node.endAt offset extent) =
      (place.carry length node).endAt (place.move node.start offset) extent := by
  rw [carry,Node.openTo_of_ended (by exact known),carry,Node.endAt_openTo]
  rfl

theorem carry_closeWith (place : Wrapping) (length : Nat) (node : Node) (tag : Tag) :
    place.carry length (node.closeWith tag) =
      (place.carry length node).closeWith (tag.shift (place.move node.start)) := by
  rw [carry,Node.openTo_of_ended Extent.noConfusion,carry,Node.closeWith_openTo]
  rfl

end Wrapping

/-- Elements with the list among them that has been put in. -/
structure Inserted (place : Wrapping) (length : Nat) (list : Node) (nodes others : List Node) : Prop where
  bound : place.index ≤ nodes.length
  size : others.length = nodes.length + 1
  list : others[place.index]? = some list
  nodes : ∀ i, others[place.number i]? = nodes[i]?.map (place.carry length)

namespace Inserted

variable {place : Wrapping} {length : Nat} {list : Node} {nodes others : List Node}

theorem modify (inserted : Inserted place length list nodes others) (i : Nat) (change other : Node → Node)
    (same : ∀ node, nodes[i]? = some node → place.carry length (change node) = other (place.carry length node)) :
    Inserted place length list (nodes.modify i change) (others.modify (place.number i) other) := by
  refine ⟨?_,?_,?_,fun j => ?_⟩
  · rw [List.length_modify]
    exact inserted.bound
  · rw [List.length_modify,List.length_modify]
    exact inserted.size
  · rw [getElem?_modify_of_ne _ (place.number_ne_index i)]
    exact inserted.list
  · by_cases here : i = j
    · subst here
      rw [List.getElem?_modify_eq,List.getElem?_modify_eq,inserted.nodes]
      cases found : nodes[i]? with
      | none => rfl
      | some node => exact congrArg some (same node found).symm
    · rw [getElem?_modify_of_ne _ here,getElem?_modify_of_ne _ fun same => here (place.number_injective same)]
      exact inserted.nodes j

theorem closeList (inserted : Inserted place length list nodes others) (tag : Tag) :
    Inserted place length (list.closeWith tag) nodes (others.modify place.index (·.closeWith tag)) := by
  refine ⟨inserted.bound,?_,?_,fun i => ?_⟩
  · rw [List.length_modify]
    exact inserted.size
  · rw [List.getElem?_modify_eq,inserted.list]
    rfl
  · rw [getElem?_modify_of_ne _ (place.number_ne_index i).symm]
    exact inserted.nodes i

theorem append (inserted : Inserted place length list nodes others) (node : Node) :
    Inserted place length list (nodes ++ [node]) (others ++ [place.carry length node]) := by
  have bound := inserted.bound
  have size := inserted.size
  refine ⟨?_,?_,?_,fun i => ?_⟩
  · rw [List.length_append]
    omega
  · simp [size]
  · rw [List.getElem?_append_left (by omega)]
    exact inserted.list
  · by_cases inside : i < nodes.length
    · have within : place.number i < others.length := by
        unfold Wrapping.number
        split_ifs <;> omega
      rw [List.getElem?_append_left inside,List.getElem?_append_left within]
      exact inserted.nodes i
    · have number : place.number i = i + 1 := if_neg (by omega)
      have shifted : i + 1 - (nodes.length + 1) = i - nodes.length := by omega
      rw [number,List.getElem?_append_right (by omega),List.getElem?_append_right (by omega),size,shifted]
      cases i - nodes.length <;> rfl

theorem endAll (inserted : Inserted place length list nodes others) (ended : List OpenNode) (offset target : Nat)
    (extent : OpenNode → Extent) (known : ∀ entry, extent entry ≠ .unterminated)
    (alike : ∀ entry, extent (place.entry entry) = extent entry)
    (moved : ∀ entry ∈ ended, ∀ start, (nodes.map (·.start))[entry.index]? = some start →
      place.move start offset = target) :
    Inserted place length list (Outline.endAll nodes ended offset extent)
      (Outline.endAll others (ended.map place.entry) target extent) := by
  unfold Outline.endAll
  induction ended generalizing nodes others with
  | nil => exact inserted
  | cons entry rest ih =>
    have step := inserted.modify entry.index (·.endAt offset (extent entry)) (·.endAt target (extent entry))
      fun node found => by
        rw [place.carry_endAt length node offset (known entry),moved entry List.mem_cons_self node.start (by simp [found])]
    rw [List.map_cons,List.foldl_cons,List.foldl_cons,alike]
    refine ih step fun other member start found => ?_
    rw [Outline.map_modify Node.start _ _ (·.endAt offset (extent entry)) fun _ => rfl] at found
    exact moved other (List.mem_cons_of_mem _ member) start found

end Inserted

def listClosing (start : Nat) : Tag := ⟨.closing,"ul",start,start + 5,true⟩

theorem asciiLower_ul : asciiLower "ul" = "ul" := by decide

theorem lasting_ul : Lasting "ul" := ⟨by decide,by decide⟩

def Wrapping.gain (inside : Bool) : Nat := if inside then 4 else 9

def Wrapping.Beside (place : Wrapping) (inside : Bool) (tag : Tag) : Prop :=
  if inside then place.start < tag.start ∧ tag.start < place.stop else place.stop ≤ tag.start

namespace Outline

/-- Outlines that are read side by side, in the element or behind it. The open elements `inner` correspond; of
those around them, which are left alone, the second outline may have others. -/
structure Wraps (place : Wrapping) (length : Nat) (inside : Bool) (list : Node) (inner front back : List OpenNode)
    (first second : Outline) : Prop where
  nodes : Inserted place length list first.nodes second.nodes
  path : first.path = inner ++ front
  follows : second.path = inner.map place.entry ++ back
  owed : second.owed = first.owed
  held : ∀ entry ∈ inner, ∀ start, (first.nodes.map (·.start))[entry.index]? = some start →
    decide (place.Holds start) = inside

variable {place : Wrapping} {length other : Nat} {inside : Bool} {list : Node} {inner front back : List OpenNode}
  {first second : Outline} {tag : Tag}

theorem move_of_held (proper : place.start < place.stop) {start : Nat}
    (held : decide (place.Holds start) = inside) (offset : Nat) (behind : inside = false → place.stop ≤ offset) :
    place.move start offset = offset + Wrapping.gain inside := by
  cases inside with
  | true => exact if_pos (of_decide_eq_true held)
  | false =>
    have behind := behind rfl
    rw [Wrapping.move,if_neg (of_decide_eq_false held),if_neg (by omega)]
    rfl

theorem behind_of_beside (beside : place.Beside inside tag) (outside : inside = false) :
    place.stop ≤ tag.start := by
  subst outside
  exact beside

theorem Wraps.ended (ended rest : List OpenNode)
    (wraps : Wraps place length inside list (ended ++ rest) front back first second) (proper : place.start < place.stop)
    (beside : place.Beside inside tag) (extent : OpenNode → Extent) (known : ∀ entry, extent entry ≠ .unterminated)
    (alike : ∀ entry, extent (place.entry entry) = extent entry) (owed : List String) :
    Wraps place length inside list rest front back ⟨endAll first.nodes ended tag.start extent,rest ++ front,owed⟩
      ⟨endAll second.nodes (ended.map place.entry) (tag.shift (· + Wrapping.gain inside)).start extent,
        rest.map place.entry ++ back,owed⟩ where
  nodes := wraps.nodes.endAll ended _ _ extent known alike fun entry member start found =>
    move_of_held proper (wraps.held entry (List.mem_append_left _ member) start found) _ (behind_of_beside beside)
  path := rfl
  follows := rfl
  owed := rfl
  held entry member start found := by
    rw [map_endAll Node.start _ _ _ _ fun _ _ _ => rfl] at found
    exact wraps.held entry (List.mem_append_right _ member) start found

theorem Wraps.closed {closed : OpenNode} {rest : List OpenNode}
    (wraps : Wraps place length inside list (closed :: rest) front back first second)
    (proper : place.start < place.stop) (beside : place.Beside inside tag) (nonempty : tag.start < tag.stop)
    (owed : List String) :
    Wraps place length inside list rest front back
      ⟨first.nodes.modify closed.index (·.closeWith tag),rest ++ front,owed⟩
      ⟨second.nodes.modify (place.entry closed).index (·.closeWith (tag.shift (· + Wrapping.gain inside))),
        rest.map place.entry ++ back,owed⟩ where
  nodes := wraps.nodes.modify closed.index _ _ fun node found => by
    have held := wraps.held closed List.mem_cons_self node.start (by simp [found])
    have start := move_of_held proper held tag.start (behind_of_beside beside)
    have stop := move_of_held proper held tag.stop fun outside =>
      (behind_of_beside beside outside).trans nonempty.le
    have moved : tag.shift (place.move node.start) = tag.shift (· + Wrapping.gain inside) := by
      simp only [Tag.shift,start,stop]
    rw [place.carry_closeWith,moved]
  path := rfl
  follows := rfl
  owed := rfl
  held entry member start found := by
    rw [map_modify Node.start _ _ (·.closeWith tag) fun _ => rfl] at found
    exact wraps.held entry (List.mem_cons_of_mem _ member) start found

/-- In the element the list is one more element around; behind it all open elements correspond. -/
def Around (inside : Bool) (inner front back : List OpenNode) : Prop :=
  if inside then inner ≠ [] ∧ back.length = front.length + 1 else front = [] ∧ back = []

theorem Wraps.head_path (wraps : Wraps place length inside list inner front back first second)
    (around : Around inside inner front back) :
    second.path.head?.map (·.index) = (first.path.head?.map (·.index)).map place.number := by
  rw [wraps.path,wraps.follows]
  cases inner with
  | cons top rest => rfl
  | nil =>
    cases inside with
    | true => exact absurd rfl around.1
    | false =>
      obtain ⟨rfl,rfl⟩ := around
      rfl

theorem Wraps.length_path (wraps : Wraps place length inside list inner front back first second)
    (around : Around inside inner front back) {start : Nat} (held : decide (place.Holds start) = inside) :
    second.path.length = if place.Holds start then first.path.length + 1 else first.path.length := by
  rw [wraps.path,wraps.follows]
  simp only [List.length_append,List.length_map]
  cases inside with
  | true =>
    obtain ⟨_,levels⟩ := around
    rw [if_pos (of_decide_eq_true held)]
    omega
  | false =>
    obtain ⟨rfl,rfl⟩ := around
    rw [if_neg (of_decide_eq_false held)]

theorem held_of_beside (beside : place.Beside inside tag) :
    decide (place.Holds tag.start) = inside ∧ (place.start < place.stop → tag.start ≠ place.start) := by
  cases inside with
  | true =>
    obtain ⟨after,before⟩ := beside
    exact ⟨decide_eq_true ⟨after.le,before⟩,fun _ => Nat.ne_of_gt after⟩
  | false =>
    have behind : place.stop ≤ tag.start := beside
    refine ⟨decide_eq_false fun within => ?_,fun proper => ?_⟩
    · have := within.2
      omega
    · omega

def started (outline : Outline) (length : Nat) (tag : Tag) (selfClosing : Bool) : Node :=
  let name := asciiLower tag.name
  let extent := openingExtent tag selfClosing name
  let stop := if extent = .unterminated then length else tag.stop
  { name, start := tag.start, openStop := tag.stop, closeStart := stop, stop, extent
    parent := outline.path.head?.map (·.index)
    depth := outline.path.length
    detached := !outline.owed.isEmpty }

theorem enter_eq (outline : Outline) (length : Nat) (tag : Tag) (selfClosing : Bool) :
    outline.enter length tag selfClosing =
      { outline with
        nodes := outline.nodes ++ [outline.started length tag selfClosing]
        path := if hasContent tag selfClosing (asciiLower tag.name) then
            ⟨outline.nodes.length,asciiLower tag.name⟩ :: outline.path
          else outline.path } := rfl

theorem openingExtent_shift (move : Nat → Nat) (tag : Tag) (selfClosing : Bool) (name : String) :
    openingExtent (tag.shift move) selfClosing name = openingExtent tag selfClosing name := rfl

theorem hasContent_shift (move : Nat → Nat) (tag : Tag) (selfClosing : Bool) (name : String) :
    hasContent (tag.shift move) selfClosing name = hasContent tag selfClosing name := rfl

theorem Wraps.carry_started (wraps : Wraps place length inside list inner front back first second)
    (proper : place.start < place.stop) (beside : place.Beside inside tag) (nonempty : tag.start < tag.stop)
    (around : Around inside inner front back) (other : Nat) (selfClosing : Bool) :
    place.carry length (first.started other tag selfClosing) =
      second.started length (tag.shift (· + Wrapping.gain inside)) selfClosing := by
  obtain ⟨held,apart⟩ := held_of_beside beside
  have start := move_of_held proper held tag.start (behind_of_beside beside)
  have stop := move_of_held proper held tag.stop fun outside => (behind_of_beside beside outside).trans nonempty.le
  have label : (tag.shift (· + Wrapping.gain inside)).name = tag.name := rfl
  have same := openingExtent_shift (· + Wrapping.gain inside) tag selfClosing (asciiLower tag.name)
  have parent := wraps.head_path around
  have depth := wraps.length_path around held
  have owed := wraps.owed
  unfold started
  dsimp only
  rw [parent,depth,owed,label,same]
  by_cases pending : openingExtent tag selfClosing (asciiLower tag.name) = .unterminated
  · simp only [pending,if_true,Wrapping.carry,Wrapping.node,Node.openTo,Node.shift,Tag.shift,start,stop,
      if_neg (apart proper)]
  · simp only [pending,if_false,Wrapping.carry,Wrapping.node,Node.openTo,Node.shift,Tag.shift,start,stop,
      if_neg (apart proper)]

/-- An opening tag starts the same element in both outlines. -/
theorem Wraps.enter (wraps : Wraps place length inside list inner front back first second)
    (proper : place.start < place.stop) (beside : place.Beside inside tag) (nonempty : tag.start < tag.stop)
    (around : Around inside inner front back) (other : Nat) (selfClosing : Bool) :
    ∃ opened, Wraps place length inside list (opened ++ inner) front back (first.enter other tag selfClosing)
      (second.enter length (tag.shift (· + Wrapping.gain inside)) selfClosing) := by
  have started := wraps.carry_started proper beside nonempty around other selfClosing
  have nodes := wraps.nodes.append (first.started other tag selfClosing)
  rw [started] at nodes
  have bound := wraps.nodes.bound
  have index : second.nodes.length = place.number first.nodes.length := by
    rw [wraps.nodes.size,Wrapping.number,if_neg (by omega)]
  have held : ∀ entry ∈ inner, ∀ start,
      ((first.nodes ++ [first.started other tag selfClosing]).map (·.start))[entry.index]? = some start →
      decide (place.Holds start) = inside := by
    intro entry member start found
    by_cases old : entry.index < first.nodes.length
    · rw [List.map_append,List.getElem?_append_left (by simpa using old)] at found
      exact wraps.held entry member start found
    · have last : start = (first.started other tag selfClosing).start := by
        rw [List.map_append,List.getElem?_append_right (by simpa using old)] at found
        obtain ⟨bound,here⟩ := List.getElem?_eq_some_iff.mp found
        simpa using here.symm
      rw [last]
      exact (held_of_beside beside).1
  rw [enter_eq,enter_eq,hasContent_shift]
  by_cases content : hasContent tag selfClosing (asciiLower tag.name) = true
  · refine ⟨[⟨first.nodes.length,asciiLower tag.name⟩],nodes,?_,?_,wraps.owed,fun entry member start found => ?_⟩
    · refine (if_pos content).trans ?_
      rw [wraps.path]
      rfl
    · refine (if_pos content).trans ?_
      rw [wraps.follows,index]
      rfl
    · rcases List.mem_cons.mp member with rfl | old
      · have here : start = (first.started other tag selfClosing).start := by simpa using found.symm
        rw [here]
        exact (held_of_beside beside).1
      · exact held entry old start found
  · refine ⟨[],nodes,?_,?_,wraps.owed,held⟩
    · exact (if_neg content).trans wraps.path
    · exact (if_neg content).trans wraps.follows

theorem Wraps.endSibling (wraps : Wraps place length inside list inner front back first second)
    (proper : place.start < place.stop) (beside : place.Beside inside tag)
    (corner : inner = [] → front = [] ∧ back = []) (name : String) :
    ∃ rest, Wraps place length inside list rest front back (first.endSibling name tag.start)
      (second.endSibling name (tag.shift (· + Wrapping.gain inside)).start) := by
  cases inner with
  | nil =>
    obtain ⟨rfl,rfl⟩ := corner rfl
    refine ⟨[],?_⟩
    have one : first.path = [] := wraps.path
    have two : second.path = [] := wraps.follows
    rwa [endSibling_stays first (by simp [one]),endSibling_stays second (by simp [two])]
  | cons top rest =>
    rw [endSibling_eq_leave wraps.path,endSibling_eq_leave wraps.follows]
    have label : (place.entry top).name = top.name := rfl
    unfold leave
    rw [label,wraps.owed]
    split_ifs
    · exact ⟨rest,wraps.ended [top] rest proper beside (fun _ => .implied) (by simp) (fun _ => rfl) first.owed⟩
    · exact ⟨top :: rest,
        wraps.ended [] (top :: rest) proper beside (fun _ => .implied) (by simp) (fun _ => rfl) first.owed⟩

theorem Wraps.read_opening (wraps : Wraps place length inside list inner front back first second)
    (proper : place.start < place.stop) (beside : place.Beside inside tag) (nonempty : tag.start < tag.stop)
    (corner : inner = [] → front = [] ∧ back = []) (other : Nat) {selfClosing : Bool} (kind : tag.kind = .opening selfClosing)
    (around : ∀ rest, (first.endSibling (asciiLower tag.name) tag.start).path = rest ++ front →
      Around inside rest front back) :
    ∃ more, Wraps place length inside list more front back (first.read other tag)
      (second.read length (tag.shift (· + Wrapping.gain inside))) := by
  obtain ⟨rest,ended⟩ := wraps.endSibling proper beside corner (asciiLower tag.name)
  obtain ⟨opened,entered⟩ := ended.enter proper beside nonempty (around rest ended.path) other selfClosing
  have again : (tag.shift (· + Wrapping.gain inside)).kind = .opening selfClosing := kind
  refine ⟨opened ++ rest,?_⟩
  rw [read_of_opening kind,read_of_opening again]
  exact entered

theorem avoids_map_entry (place : Wrapping) {name : String} {path : List OpenNode} :
    Avoids name (path.map place.entry) ↔ Avoids name path := by
  simp [Avoids,Wrapping.entry]

theorem cutOff_map_entry (place : Wrapping) (path : List OpenNode) : cutOff (path.map place.entry) = cutOff path := by
  rw [cutOff_eq,cutOff_eq,List.map_map]
  rfl

theorem Wraps.read_closing {within rest : List OpenNode} {closed : OpenNode}
    (wraps : Wraps place length inside list (within ++ closed :: rest) front back first second)
    (proper : place.start < place.stop) (beside : place.Beside inside tag) (nonempty : tag.start < tag.stop)
    (other : Nat) (kind : tag.kind = .closing) (label : closed.name = asciiLower tag.name)
    (others : Avoids (asciiLower tag.name) within) :
    Wraps place length inside list rest front back (first.read other tag)
      (second.read length (tag.shift (· + Wrapping.gain inside))) := by
  have path : first.path = within ++ closed :: (rest ++ front) := by rw [wraps.path]; simp
  have follows : second.path = within.map place.entry ++ place.entry closed :: (rest.map place.entry ++ back) := by
    rw [wraps.follows]
    simp
  have again : (tag.shift (· + Wrapping.gain inside)).kind = .closing := kind
  have one := readClosing_found first tag within _ closed path label others
  have two := readClosing_found second (tag.shift (· + Wrapping.gain inside)) _ _ _ follows label
    ((avoids_map_entry place).mpr others)
  rw [read_of_closing kind,read_of_closing again,one,two,cutOff_map_entry,wraps.owed]
  have ended := wraps.ended within (closed :: rest) proper beside innerExtent innerExtent_ne_unterminated (fun _ => rfl) first.owed
  exact ended.closed proper beside nonempty _

theorem Wraps.owing (wraps : Wraps place length inside list inner front back first second) (owed : List String) :
    Wraps place length inside list inner front back { first with owed } { second with owed } :=
  ⟨wraps.nodes,wraps.path,wraps.follows,rfl,wraps.held⟩

theorem Wraps.read_behind (wraps : Wraps place length false list inner [] [] first second)
    (proper : place.start < place.stop) (behind : place.stop ≤ tag.start) (nonempty : tag.start < tag.stop)
    (other : Nat) : ∃ more, Wraps place length false list more [] [] (first.read other tag)
      (second.read length (tag.shift (· + Wrapping.gain false))) := by
  have beside : place.Beside false tag := behind
  cases kind : tag.kind with
  | markup =>
    refine ⟨inner,?_⟩
    have again : (tag.shift (· + Wrapping.gain false)).kind = .markup := kind
    rw [read_of_markup kind,read_of_markup again]
    exact wraps
  | opening selfClosing =>
    exact wraps.read_opening proper beside nonempty (fun _ => ⟨rfl,rfl⟩) other kind fun _ _ => ⟨rfl,rfl⟩
  | closing =>
    have whole : first.path = inner := wraps.path.trans (List.append_nil _)
    obtain ⟨within,closed,rest,path,label,others⟩ | others := split_path first.path (asciiLower tag.name)
    · obtain rfl := whole.symm.trans path
      exact ⟨rest,wraps.read_closing proper beside nonempty other kind label others⟩
    · have again : (tag.shift (· + Wrapping.gain false)).kind = .closing := kind
      have follows : second.path = inner.map place.entry := wraps.follows.trans (List.append_nil _)
      have avoided : Avoids (asciiLower (tag.shift (· + Wrapping.gain false)).name) second.path := by
        rw [follows,avoids_map_entry]
        exact whole ▸ others
      rw [read_of_closing kind,read_of_closing again]
      cases owed : first.owed.contains (asciiLower tag.name) with
      | true =>
        have debt : second.owed.contains (asciiLower (tag.shift (· + Wrapping.gain false)).name) = true := by
          rw [wraps.owed]
          exact owed
        rw [readClosing_owed first tag others owed,readClosing_owed second _ avoided debt,wraps.owed]
        exact ⟨inner,wraps.owing _⟩
      | false =>
        have debt : second.owed.contains (asciiLower (tag.shift (· + Wrapping.gain false)).name) = false := by
          rw [wraps.owed]
          exact owed
        have names : (inner.map place.entry).map (·.name) = inner.map (·.name) := by simp [Wrapping.entry]
        rw [readClosing_stray first tag others owed,readClosing_stray second _ avoided debt,wraps.owed,follows,whole,
          names]
        have all : Wraps place length false list (inner ++ []) [] [] first second := by rwa [List.append_nil]
        exact ⟨[],all.ended inner [] proper beside (fun _ => .crossed) (by simp) (fun _ => rfl) _⟩

theorem Wraps.read_within {entry : OpenNode}
    (wraps : Wraps place length true list (inner ++ [entry]) front back first second)
    (proper : place.start < place.stop) (beside : place.Beside true tag) (nonempty : tag.start < tag.stop)
    (levels : back.length = front.length + 1) {other : Nat} (turn : Turn other inner entry front first tag)
    {more : List OpenNode} (still : (first.read other tag).path = more ++ entry :: front) :
    Wraps place length true list (more ++ [entry]) front back (first.read other tag)
      (second.read length (tag.shift (· + Wrapping.gain true))) := by
  have read : ∃ kept, Wraps place length true list kept front back (first.read other tag)
      (second.read length (tag.shift (· + Wrapping.gain true))) := by
    cases turn with
    | passes kind =>
      refine ⟨inner ++ [entry],?_⟩
      have again : (tag.shift (· + Wrapping.gain true)).kind = .markup := kind
      rw [read_of_markup kind,read_of_markup again]
      exact wraps
    | opens selfClosing kind ended rest parts left =>
      refine wraps.read_opening proper beside nonempty (by simp) other kind fun kept path => ?_
      have same : (rest ++ [entry]) ++ front = kept ++ front := by
        rw [← path,left]
        simp [leave]
      exact ⟨by simp [← List.append_cancel_right same],levels⟩
    | closes kind within rest closed parts label others =>
      rw [parts,List.append_assoc] at wraps
      exact ⟨rest ++ [entry],wraps.read_closing proper beside nonempty other kind label others⟩
    | ends node found past ending => exact absurd rfl (past.2 entry (by rw [still]; simp))
  obtain ⟨kept,wraps⟩ := read
  have same : (more ++ [entry]) ++ front = kept ++ front := by
    rw [← wraps.path,still]
    simp
  rwa [List.append_cancel_right same]

theorem Wraps.readAll_within {entry : OpenNode}
    (wraps : Wraps place length true list (inner ++ [entry]) front back first second)
    (proper : place.start < place.stop) (levels : back.length = front.length + 1) (opened : first.OpenPath)
    (settled : first.owed = [])
    (spared : ∀ top rest, front = top :: rest → (isSelfEnding entry.name && top.name == entry.name) = false)
    (other : Nat) (tags : List Tag) (beside : ∀ tag ∈ tags, place.Beside true tag ∧ tag.start < tag.stop)
    (uncut : (tags.foldl (read other) first).Uncut) {more : List OpenNode}
    (still : (tags.foldl (read other) first).path = more ++ entry :: front) :
    Wraps place length true list (more ++ [entry]) front back (tags.foldl (read other) first)
      ((tags.map (·.shift (· + Wrapping.gain true))).foldl (read length) second) := by
  have path : first.path = inner ++ entry :: front := by rw [wraps.path]; simp
  induction tags generalizing first second inner with
  | nil =>
    have same : more ++ entry :: front = inner ++ entry :: front := still.symm.trans path
    rw [List.append_cancel_right same]
    exact wraps
  | cons tag rest ih =>
    rw [List.foldl_cons] at still
    have next := lasts_openPath.read opened other tag
    have here := next.uncut_of_readAll other rest uncut
    have turn := opened.turn settled path spared here
    rcases turn.open_or_ended path with ⟨kept,open_⟩ | ⟨_,_,past,_⟩
    · obtain ⟨inside,nonempty⟩ := beside tag List.mem_cons_self
      exact ih (wraps.read_within proper inside nonempty levels turn open_) next
        (opened.owed_of_uncut settled other tag here) (fun tag member => beside tag (List.mem_cons_of_mem _ member))
        uncut still open_
    · exact absurd rfl ((past.readAll other rest).1.2 entry (by rw [still]; simp))

theorem Wraps.readAll_behind (wraps : Wraps place length false list inner [] [] first second)
    (proper : place.start < place.stop) (other : Nat) (tags : List Tag)
    (behind : ∀ tag ∈ tags, place.stop ≤ tag.start ∧ tag.start < tag.stop) :
    ∃ more, Wraps place length false list more [] [] (tags.foldl (read other) first)
      ((tags.map (·.shift (· + Wrapping.gain false))).foldl (read length) second) := by
  induction tags generalizing first second inner with
  | nil => exact ⟨inner,wraps⟩
  | cons tag rest ih =>
    obtain ⟨place,nonempty⟩ := behind tag List.mem_cons_self
    obtain ⟨more,next⟩ := wraps.read_behind proper place nonempty other
    exact ih next fun tag member => behind tag (List.mem_cons_of_mem _ member)

theorem Wraps.close_list
    (wraps : Wraps place length true list inner front (⟨place.index,"ul"⟩ :: front) first second)
    (loose : ∀ entry ∈ inner, isSelfEnding entry.name = true)
    (outer : ∀ entry ∈ front, entry.index < place.index)
    (before : ∀ entry ∈ front, ∀ start, (first.nodes.map (·.start))[entry.index]? = some start →
      start < place.start) :
    Wraps place length false (list.closeWith (listClosing (place.stop + 4))) front [] []
      (first.leave inner front place.stop) (second.read length (listClosing (place.stop + 4))) := by
  have others : Avoids (asciiLower (listClosing (place.stop + 4)).name) (inner.map place.entry) := by
    rw [avoids_map_entry,listClosing,asciiLower_ul]
    intro entry member same
    have ending := loose entry member
    rw [same,lasting_ul.stays] at ending
    contradiction
  have bare : cutOff inner = [] := by
    rw [cutOff,List.map_eq_nil_iff,List.filter_eq_nil_iff]
    intro entry member
    rw [loose entry member]
    decide
  have implied : endAll second.nodes (inner.map place.entry) (place.stop + 4) innerExtent =
      endAll second.nodes (inner.map place.entry) (place.stop + 4) fun _ => .implied := by
    refine endAll_congr _ _ _ fun entry member => ?_
    obtain ⟨original,present,rfl⟩ := List.mem_map.mp member
    exact if_pos (loose original present)
  have read := readClosing_found second (listClosing (place.stop + 4)) (inner.map place.entry) front _ wraps.follows
    asciiLower_ul.symm others
  have kind : (listClosing (place.stop + 4)).kind = .closing := rfl
  have same : front.map place.entry = front := by
    refine (List.map_congr_left fun entry member => ?_).trans (List.map_id front)
    rw [Wrapping.entry,Wrapping.number,if_pos (outer entry member)]
    rfl
  rw [read_of_closing kind,read,cutOff_map_entry,bare,wraps.owed]
  have start : (listClosing (place.stop + 4)).start = place.stop + 4 := rfl
  rw [start,implied]
  refine ⟨(wraps.nodes.endAll inner place.stop (place.stop + 4) (fun _ => .implied) (by simp) (fun _ => rfl)
    fun entry member start found => ?_).closeList _,?_,?_,rfl,fun entry member start found => ?_⟩
  · exact if_pos (of_decide_eq_true (wraps.held entry member start found))
  · exact (List.append_nil _).symm
  · rw [same,List.append_nil]
  · rw [leave,map_endAll Node.start _ _ _ _ fun _ _ _ => rfl] at found
    have := before entry member start found
    refine decide_eq_false fun held => ?_
    have := held.1
    omega

theorem Reached.carry_eq {outline : Outline} {other : Nat} (reached : outline.Reached other place.start)
    (opened : outline.OpenPath) (index : place.index = outline.nodes.length) (length : Nat) {i : Nat} {node : Node}
    (found : outline.nodes[i]? = some node) : place.carry length node = node.openTo length := by
  have inside := (List.getElem?_eq_some_iff.mp found).1
  have spans := reached.forest.spans i node found
  have tag := reached.opened i node found
  unfold Node.Spans at spans
  have before : node.start < place.start := by omega
  have outside : ¬ place.Holds node.start := fun held => by
    have := held.1
    omega
  have fixed (offset : Nat) (below : offset ≤ place.start) : place.move node.start offset = offset := by
    rw [Wrapping.move,if_neg outside,if_pos below]
  have parent : node.parent.map place.number = node.parent := by
    have placed := reached.forest.placed i node found
    unfold Node.Placed at placed
    cases link : node.parent with
    | none => rfl
    | some p =>
      rw [link] at placed
      exact congrArg some (if_pos (by have := placed.1; omega))
  unfold Wrapping.carry Wrapping.node
  rw [if_neg (by omega : ¬ node.start = place.start),if_neg outside,parent]
  by_cases pending : node.extent = .unterminated
  · simp only [Node.openTo,Node.shift,pending,if_true,fixed node.start before.le,fixed node.openStop tag]
  · have stop := reached.ended i node found (opened.past found pending).2
    simp only [Node.openTo,Node.shift,pending,if_false,fixed node.start before.le,fixed node.openStop tag,
      fixed node.closeStart (by omega),fixed node.stop stop]

variable {outline : Outline} {opening : Tag} {selfClosing : Bool}

theorem Reached.inserted (reached : outline.Reached other place.start) (opened : outline.OpenPath)
    (index : place.index = outline.nodes.length) (length : Nat) (list : Node) :
    Inserted place length list outline.nodes ((outline.relabel (·.openTo length)).nodes ++ [list]) := by
  have size : (outline.relabel (·.openTo length)).nodes.length = outline.nodes.length := List.length_map _
  refine ⟨index.le,by simp [size],?_,fun i => ?_⟩
  · rw [index,← size,List.getElem?_concat_length]
  · by_cases inside : i < outline.nodes.length
    · have same : place.number i = i := if_pos (by omega)
      rw [same,List.getElem?_append_left (by omega),relabel,List.getElem?_map]
      cases found : outline.nodes[i]? with
      | none => rfl
      | some node => exact congrArg some (reached.carry_eq opened index length found).symm
    · have later : place.number i = i + 1 := if_neg (by omega)
      rw [later,List.getElem?_eq_none (by simp [size]; omega),List.getElem?_eq_none (by omega)]
      rfl

theorem read_listOpening (outline : Outline) (length start : Nat) :
    outline.read length (listOpening start) =
      { outline with
        nodes := outline.nodes ++ [outline.started length (listOpening start) false]
        path := ⟨outline.nodes.length,"ul"⟩ :: outline.path } := by
  have label : asciiLower (listOpening start).name = "ul" := asciiLower_ul
  rw [read_lasting length (listOpening start) false rfl (label ▸ lasting_ul),enter_eq,label]
  rfl

theorem read_in_list (path : outline.path = ⟨place.index,"ul"⟩ :: front) (length : Nat)
    (kind : opening.kind = .opening selfClosing) :
    outline.read length opening = outline.enter length opening selfClosing := by
  rw [read_of_opening kind,endSibling_in_lasting path lasting_ul]

theorem carry_started_listed {second : Outline} (path : second.path = ⟨place.index,"ul"⟩ :: outline.path)
    (owed : second.owed = outline.owed) (proper : place.start < place.stop) (start : opening.start = place.start)
    (length : Nat) : place.carry length (outline.started other opening selfClosing) =
      second.started length (opening.shift (· + Wrapping.gain true)) selfClosing := by
  have held : place.Holds opening.start := ⟨start.ge,start ▸ proper⟩
  have moved (offset : Nat) : place.move opening.start offset = offset + Wrapping.gain true := if_pos held
  have label : (opening.shift (· + Wrapping.gain true)).name = opening.name := rfl
  have same := openingExtent_shift (· + Wrapping.gain true) opening selfClosing (asciiLower opening.name)
  unfold started
  dsimp only
  rw [path,owed,label,same]
  by_cases pending : openingExtent opening selfClosing (asciiLower opening.name) = .unterminated
  · simp only [pending,if_true,Wrapping.carry,Wrapping.node,Node.openTo,Node.shift,Tag.shift,moved,if_pos start,
      if_pos held]
    rfl
  · simp only [pending,if_false,Wrapping.carry,Wrapping.node,Node.openTo,Node.shift,Tag.shift,moved,if_pos start,
      if_pos held]
    rfl

theorem wraps_start (reached : outline.Reached other place.start) (opened : outline.OpenPath)
    (index : place.index = outline.nodes.length) (proper : place.start < place.stop)
    (kind : opening.kind = .opening selfClosing) (start : opening.start = place.start)
    (spared : outline.endSibling (asciiLower opening.name) opening.start = outline) (length : Nat) :
    Wraps place length true ((outline.relabel (·.openTo length)).started length (listOpening place.start) false)
      (if hasContent opening selfClosing (asciiLower opening.name) then [⟨place.index,asciiLower opening.name⟩] else [])
      outline.path (⟨place.index,"ul"⟩ :: outline.path) (outline.read other opening)
      (((outline.relabel (·.openTo length)).read length (listOpening place.start)).read length
        (opening.shift (· + Wrapping.gain true))) := by
  have size : (outline.relabel (·.openTo length)).nodes.length = place.index := (List.length_map _).trans index.symm
  have again : (opening.shift (· + Wrapping.gain true)).kind = .opening selfClosing := kind
  have listed := read_listOpening (outline.relabel (·.openTo length)) length place.start
  rw [size] at listed
  have inserted := (reached.inserted opened index length
    ((outline.relabel (·.openTo length)).started length (listOpening place.start) false)).append
      (outline.started other opening selfClosing)
  generalize (outline.relabel (·.openTo length)).read length (listOpening place.start) = second at listed ⊢
  have path : second.path = ⟨place.index,"ul"⟩ :: outline.path := congrArg Outline.path listed
  have owed : second.owed = outline.owed := by
    rw [listed]
    rfl
  have nodes : second.nodes = (outline.relabel (·.openTo length)).nodes ++
      [(outline.relabel (·.openTo length)).started length (listOpening place.start) false] :=
    congrArg Outline.nodes listed
  have number : place.number place.index = place.index + 1 := if_neg (by omega)
  have count : second.nodes.length = place.index + 1 := by simp [nodes,size]
  rw [carry_started_listed path owed proper start length,← nodes] at inserted
  rw [read_of_opening kind,spared,read_in_list path length again,enter_eq,enter_eq,path,hasContent_shift]
  have label : (opening.shift (· + Wrapping.gain true)).name = opening.name := rfl
  rw [label,count,← index]
  by_cases content : hasContent opening selfClosing (asciiLower opening.name) = true
  · rw [if_pos content,if_pos content,if_pos content]
    refine ⟨inserted,rfl,?_,owed,fun entry member begins found => ?_⟩
    · simp [Wrapping.entry,number]
    · obtain rfl := List.mem_singleton.mp member
      have last : begins = (outline.started other opening selfClosing).start := by
        rw [index,List.map_append,List.getElem?_append_right (by simp)] at found
        simpa using found.symm
      rw [last]
      exact decide_eq_true ⟨start.ge,start.trans_lt proper⟩
  · rw [if_neg content,if_neg content,if_neg content]
    exact ⟨inserted,rfl,rfl,owed,fun entry member => absurd member List.not_mem_nil⟩

theorem spared_names (spared : outline.endSibling (asciiLower opening.name) opening.start = outline) :
    ∀ top rest, outline.path = top :: rest →
      (isSelfEnding (asciiLower opening.name) && top.name == asciiLower opening.name) = false := by
  intro top rest path
  by_contra ends
  rw [endSibling_eq_leave path,if_pos (by simpa using ends)] at spared
  have same := congrArg (fun outline : Outline => outline.path.length) spared
  simp [leave,path] at same

theorem leave_nil (path : outline.path = front) (offset : Nat) : outline.leave [] front offset = outline := by
  subst path
  rfl

/-- Where the tags of an element end and those behind it start. -/
inductive Seam (place : Wrapping) (length : Nat) (opening : Tag) (selfClosing : Bool) (outline : Outline) :
    List Tag → List Tag → Prop
  | lone (rest : List Tag) (bare : hasContent opening selfClosing (asciiLower opening.name) = false)
      (stop : opening.stop = place.stop) : Seam place length opening selfClosing outline [] rest
  | closed (middle rest : List Tag) (closing : Tag) (kind : closing.kind = .closing)
      (stop : closing.stop = place.stop) : Seam place length opening selfClosing outline (middle ++ [closing]) rest
  | left (inside rest : List Tag) (tag : Tag) (start : tag.start = place.stop)
      (loose : ∀ top outer, (inside.foldl (read length) outline).path = top :: outer → isSelfEnding top.name = true) :
      Seam place length opening selfClosing outline inside (tag :: rest)

theorem Reached.start_lt (reached : outline.Reached other place.start) (tags : List Tag) {entry : OpenNode}
    (bound : entry.index < outline.nodes.length) {start : Nat}
    (found : ((tags.foldl (Outline.read other) outline).nodes.map (·.start))[entry.index]? = some start) :
    start < place.start := by
  obtain ⟨more,same⟩ := (lasts_opened outline).readAll List.prefix_rfl other tags
  obtain ⟨node,present,begins⟩ := Option.map_eq_some_iff.mp ((List.getElem?_map ..).symm.trans found)
  have here := congrArg (·[entry.index]?) same
  rw [List.getElem?_append_left (by simpa using bound),List.getElem?_map,List.getElem?_map,present] at here
  obtain ⟨before,known,opened⟩ := Option.map_eq_some_iff.mp here
  have spans := reached.forest.spans _ before known
  have tag := reached.opened _ before known
  have alike : before.start = node.start := congrArg (·.2.1) opened
  unfold Node.Spans at spans
  omega

/-- What is known of the outlines after the opening tag of an element. -/
structure Started (place : Wrapping) (other length : Nat) (list : Node) (entry : OpenNode) (front : List OpenNode)
    (first second : Outline) : Prop where
  wraps : Wraps place length true list [entry] front (⟨place.index,"ul"⟩ :: front) first second
  proper : place.start < place.stop
  opened : first.OpenPath
  settled : first.owed = []
  spared : ∀ top rest, front = top :: rest → (isSelfEnding entry.name && top.name == entry.name) = false
  outer : ∀ entry ∈ front, entry.index < place.index
  before : ∀ tags : List Tag, ∀ entry ∈ front, ∀ start,
    ((tags.foldl (read other) first).nodes.map (·.start))[entry.index]? = some start → start < place.start

/-- What is known if the tags of the element and those behind it are the given ones: the elements of both outlines at
the end, and that the list is open up to its closing tag. -/
structure InsertedAfter (place : Wrapping) (other length : Nat) (list : Node) (first second : Outline)
    (inside rest : List Tag) : Prop where
  nodes : Inserted place length (list.closeWith (listClosing (place.stop + 4)))
    ((inside ++ rest).foldl (read other) first).nodes
    ((rest.map (·.shift (· + Wrapping.gain false))).foldl (read length)
      (((inside.map (·.shift (· + Wrapping.gain true))).foldl (read length) second).read length
        (listClosing (place.stop + 4)))).nodes
  pending : ⟨place.index,"ul"⟩ ∈ ((inside.map (·.shift (· + Wrapping.gain true))).foldl (read length) second).path

theorem Wraps.insertedAfter (inside rest : List Tag) (proper : place.start < place.stop)
    (wraps : Wraps place length true list inner front (⟨place.index,"ul"⟩ :: front)
      (inside.foldl (read other) first) ((inside.map (·.shift (· + Wrapping.gain true))).foldl (read length) second))
    (loose : ∀ entry ∈ inner, isSelfEnding entry.name = true)
    (outer : ∀ entry ∈ front, entry.index < place.index)
    (before : ∀ entry ∈ front, ∀ start,
      ((inside.foldl (read other) first).nodes.map (·.start))[entry.index]? = some start → start < place.start)
    (left : rest.foldl (read other) ((inside.foldl (read other) first).leave inner front place.stop) =
      rest.foldl (read other) (inside.foldl (read other) first))
    (behind : ∀ tag ∈ rest, place.stop ≤ tag.start ∧ tag.start < tag.stop) :
    InsertedAfter place other length list first second inside rest := by
  obtain ⟨more,final⟩ := (wraps.close_list loose outer before).readAll_behind proper other rest behind
  have nodes := final.nodes
  rw [left,← List.foldl_append] at nodes
  exact ⟨nodes,by rw [wraps.follows]; simp⟩

theorem Started.exists_seam {entry : OpenNode} (started : Started place other length list entry front first second)
    (later : List Tag) (nonempty : ∀ tag ∈ later, place.start < tag.start ∧ tag.start < tag.stop)
    (ordered : later.Pairwise fun first second => first.stop ≤ second.start)
    (uncut : (later.foldl (read other) first).Uncut) {node : Node}
    (found : (later.foldl (read other) first).nodes[entry.index]? = some node)
    (known : node.extent.isKnown = true) (stop : node.stop = place.stop) (opening : Tag) (selfClosing : Bool) :
    ∃ inside rest, later = inside ++ rest ∧ Seam place other opening selfClosing first inside rest ∧
      InsertedAfter place other length list first second inside rest := by
  have path : first.path = [] ++ entry :: front := started.wraps.path
  obtain ⟨middle,tag,more,inner,rfl,still,ending⟩ :=
    started.opened.exists_ending started.settled path started.spared other later uncut found known
  obtain ⟨early,late,between⟩ := List.pairwise_append.mp ordered
  have here := nonempty tag (List.mem_append_right _ List.mem_cons_self)
  have bound : tag.start ≤ place.stop ∧ (node.extent = .closed → tag.start < place.stop) := by
    cases ending with
    | closed _ _ _ _ ends => exact ⟨by omega,fun _ => by omega⟩
    | implied _ _ extent ends => exact ⟨by omega,fun closed => absurd (extent.symm.trans closed) (by decide)⟩
  have beside : ∀ inside ∈ middle, place.Beside true inside ∧ inside.start < inside.stop := by
    intro inside member
    have first := nonempty inside (List.mem_append_left _ member)
    have := between inside member tag List.mem_cons_self
    exact ⟨⟨first.1,by omega⟩,first.2⟩
  have whole : (middle.foldl (read other) first).Uncut := by
    rw [List.foldl_append] at uncut
    exact (lasts_openPath.readAll started.opened other middle).uncut_of_readAll other (tag :: more) uncut
  have wraps := @Wraps.readAll_within _ _ _ [] _ _ _ _ _ started.wraps started.proper rfl started.opened
    started.settled started.spared other middle beside whole inner still
  have behind (tag : Tag) (member : tag ∈ more) (after : place.stop ≤ tag.start) :
      place.stop ≤ tag.start ∧ tag.start < tag.stop :=
    ⟨after,(nonempty tag (List.mem_append_right _ (List.mem_cons_of_mem _ member))).2⟩
  have following := (List.pairwise_cons.mp late).1
  cases ending with
  | closed kind label others extent ends =>
    have closed := wraps.read_closing started.proper ⟨here.1,bound.2 extent⟩ here.2 other kind label.symm
      (label.symm ▸ others)
    refine ⟨middle ++ [tag],more,by simp,.closed middle more tag kind (by omega),?_⟩
    have after : (middle ++ [tag]).foldl (read other) first = (middle.foldl (read other) first).read other tag := by simp
    have again : ((middle ++ [tag]).map (·.shift (· + Wrapping.gain true))).foldl (Outline.read length) second =
        ((middle.map (·.shift (· + Wrapping.gain true))).foldl (Outline.read length) second).read length
          (tag.shift (· + Wrapping.gain true)) := by simp
    rw [← after,← again] at closed
    refine closed.insertedAfter (middle ++ [tag]) more started.proper (by simp) started.outer (started.before _) ?_ fun next member => ?_
    · have empty : ((middle ++ [tag]).foldl (read other) first).path = front := closed.path
      rw [leave_nil empty]
    · exact behind next member (by have := following next member; omega)
  | implied loose left extent ends =>
    have next : tag.start = place.stop := ends.symm.trans stop
    refine ⟨middle,tag :: more,rfl,.left middle more tag next fun top outer path => ?_,?_⟩
    · refine loose top ?_
      rw [still] at path
      cases inner with
      | nil => exact (List.cons.inj path).1 ▸ by simp
      | cons head tail => exact (List.cons.inj path).1 ▸ by simp
    · refine wraps.insertedAfter middle (tag :: more) started.proper loose started.outer (started.before _) ?_ fun next member => ?_
      · rw [List.foldl_cons,List.foldl_cons,left,next]
      · rcases List.mem_cons.mp member with rfl | further
        · exact ⟨next.ge,here.2⟩
        · exact behind next further (by have := following next further; omega)

theorem Wraps.exists_lone (wraps : Wraps place length true list [] front (⟨place.index,"ul"⟩ :: front) first second)
    (proper : place.start < place.stop) (outer : ∀ entry ∈ front, entry.index < place.index)
    (before : ∀ entry ∈ front, ∀ start, (first.nodes.map (·.start))[entry.index]? = some start → start < place.start)
    (bare : hasContent opening selfClosing (asciiLower opening.name) = false) (stop : opening.stop = place.stop)
    (later : List Tag) (behind : ∀ tag ∈ later, place.stop ≤ tag.start ∧ tag.start < tag.stop) :
    ∃ inside rest, later = inside ++ rest ∧ Seam place other opening selfClosing first inside rest ∧
      InsertedAfter place other length list first second inside rest := by
  have path : first.path = front := wraps.path
  refine ⟨[],later,rfl,.lone later bare stop,?_⟩
  refine wraps.insertedAfter [] later proper (by simp) outer before ?_ behind
  rw [List.foldl_nil,leave_nil path]

theorem Reached.exists_seam (reached : outline.Reached other place.start) (opened : outline.OpenPath)
    (settled : outline.owed = []) (index : place.index = outline.nodes.length) (proper : place.start < place.stop)
    (kind : opening.kind = .opening selfClosing) (start : opening.start = place.start)
    (spared : outline.endSibling (asciiLower opening.name) opening.start = outline) (later : List Tag)
    (nonempty : ∀ tag ∈ opening :: later, tag.start < tag.stop)
    (ordered : (opening :: later).Pairwise fun first second => first.stop ≤ second.start)
    (uncut : (later.foldl (Outline.read other) (outline.read other opening)).Uncut) {node : Node}
    (found : (later.foldl (Outline.read other) (outline.read other opening)).nodes[place.index]? = some node)
    (known : node.extent.isKnown = true) (stop : node.stop = place.stop) (length : Nat) :
    ∃ inside rest, later = inside ++ rest ∧
      Seam place other opening selfClosing (outline.read other opening) inside rest ∧
      InsertedAfter place other length
        ((outline.relabel (·.openTo length)).started length (listOpening place.start) false)
        (outline.read other opening)
        (((outline.relabel (·.openTo length)).read length (listOpening place.start)).read length
          (opening.shift (· + Wrapping.gain true))) inside rest := by
  have wraps := wraps_start reached opened index proper kind start spared length
  have next := lasts_openPath.read opened other opening
  have outer : ∀ entry ∈ outline.path, entry.index < place.index := fun entry member =>
    index ▸ opened.lt_length member
  have before (tags : List Tag) : ∀ entry ∈ outline.path, ∀ start,
      ((tags.foldl (Outline.read other) (outline.read other opening)).nodes.map (·.start))[entry.index]? = some start →
      start < place.start := fun entry member start found =>
    reached.start_lt (opening :: tags) (opened.lt_length member) found
  have first := nonempty opening List.mem_cons_self
  have behind (tag : Tag) (member : tag ∈ later) : opening.stop ≤ tag.start ∧ tag.start < tag.stop :=
    ⟨(List.pairwise_cons.mp ordered).1 tag member,nonempty tag (List.mem_cons_of_mem _ member)⟩
  have here := next.uncut_of_readAll other later uncut
  have entered : outline.read other opening = outline.enter other opening selfClosing := by
    rw [read_of_opening kind,spared]
  cases content : hasContent opening selfClosing (asciiLower opening.name) with
  | true =>
    rw [if_pos content] at wraps
    have started : Started place other length _ ⟨place.index,asciiLower opening.name⟩ outline.path
        (outline.read other opening) _ :=
      ⟨wraps,proper,next,opened.owed_of_uncut settled other opening here,spared_names spared,outer,before⟩
    exact started.exists_seam later (fun tag member => ⟨by have := behind tag member; omega,(behind tag member).2⟩)
      (List.pairwise_cons.mp ordered).2 uncut found known stop opening selfClosing
  | false =>
    rw [content,if_neg Bool.false_ne_true] at wraps
    have past : (outline.read other opening).Past place.index := by
      rw [entered,enter_eq,content,if_neg Bool.false_ne_true]
      exact ⟨by simp [index],fun entry member => Nat.ne_of_lt (outer entry member)⟩
    have ends : opening.stop = place.stop := by
      rw [(past.readAll other later).2,entered,enter_eq,index,List.getElem?_concat_length] at found
      obtain rfl := Option.some.inj found
      have ended : openingExtent opening selfClosing (asciiLower opening.name) ≠ .unterminated := by
        intro pending
        have extent : (outline.started other opening selfClosing).extent = .unterminated := pending
        rw [extent] at known
        contradiction
      rw [← stop]
      exact (if_neg ended).symm
    exact wraps.exists_lone proper outer (before []) content ends later fun tag member =>
      ⟨ends ▸ (behind tag member).1,(behind tag member).2⟩

end Outline

end AccessibleMarkup.Markup
