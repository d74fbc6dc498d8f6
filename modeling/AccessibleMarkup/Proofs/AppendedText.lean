import AccessibleMarkup.Proofs.LexerPhases
import AccessibleMarkup.Proofs.OutlineReadings

/-! What more text behind a text leaves of its elements. Only an element that is still open can be given an
end, so all that has ended is settled, and of the others everything but their end. -/
namespace AccessibleMarkup.Markup

open Text

/-- The element in a text of another length: without an end of its own it is open up to there. -/
def Node.openTo (length : Nat) (node : Node) : Node :=
  if node.extent = .unterminated then { node with closeStart := length, stop := length } else node

theorem Node.openTo_of_ended {node : Node} (ended : node.extent ≠ .unterminated) (length : Nat) :
    node.openTo length = node := if_neg ended

theorem Node.endAt_openTo (node : Node) (length offset : Nat) (extent : Extent) :
    (node.openTo length).endAt offset extent = node.endAt offset extent := by
  unfold Node.openTo
  split_ifs <;> rfl

theorem Node.closeWith_openTo (node : Node) (length : Nat) (tag : Tag) :
    (node.openTo length).closeWith tag = node.closeWith tag := by
  unfold Node.openTo
  split_ifs <;> rfl

/-- All that is known of an element when it starts: name and place of its opening tag, and what it stands in. -/
def Node.opened (node : Node) : String × Nat × Nat × Option Nat × Nat × Bool :=
  (node.name,node.start,node.openStop,node.parent,node.depth,node.detached)

theorem Node.opened_openTo (node : Node) (length : Nat) : (node.openTo length).opened = node.opened := by
  unfold Node.openTo
  split_ifs <;> rfl

namespace Outline

theorem carries_openTo (length other : Nat) : Carries (·.openTo other) id length other where
  ended node offset extent known :=
    (Node.openTo_of_ended known other).trans (node.endAt_openTo other offset extent).symm
  closed node tag :=
    (Node.openTo_of_ended Extent.noConfusion other).trans (node.closeWith_openTo other tag).symm
  entered outline tag selfClosing := by
    have same : tag.shift id = tag := rfl
    simp only [relabel,enter,List.map_append,List.map_cons,List.map_nil,List.length_map,same]
    by_cases pending : openingExtent tag selfClosing (asciiLower tag.name) = .unterminated
    · simp only [Node.openTo,pending,if_true]
    · simp only [Node.openTo,pending,if_false]

theorem openTo_readAll (length other : Nat) (tags : List Tag) :
    (tags.foldl (read length) {}).relabel (·.openTo other) = tags.foldl (read other) {} := by
  have same : tags.map (·.shift id) = tags := List.map_id _
  rw [(carries_openTo length other).readAll,same]
  rfl

/-- The open elements are different ones, and none of them has an end. -/
structure OpenPath (outline : Outline) : Prop where
  apart : outline.path.Pairwise fun inner outer => inner.index ≠ outer.index
  pending : ∀ entry ∈ outline.path, ∃ node, outline.nodes[entry.index]? = some node ∧ node.extent = .unterminated

variable {outline : Outline}

theorem OpenPath.enter (opened : outline.OpenPath) (length : Nat) (tag : Tag) (selfClosing : Bool) :
    (outline.enter length tag selfClosing).OpenPath := by
  have bound (entry : OpenNode) (member : entry ∈ outline.path) : entry.index < outline.nodes.length := by
    obtain ⟨node,found,_⟩ := opened.pending entry member
    exact (List.getElem?_eq_some_iff.mp found).1
  have kept (last : Node) (entry : OpenNode) (member : entry ∈ outline.path) :
      ∃ node, (outline.nodes ++ [last])[entry.index]? = some node ∧ node.extent = .unterminated := by
    rw [List.getElem?_append_left (bound entry member)]
    exact opened.pending entry member
  by_cases content : hasContent tag selfClosing (asciiLower tag.name) = true
  · have path : (outline.enter length tag selfClosing).path =
        ⟨outline.nodes.length,asciiLower tag.name⟩ :: outline.path := if_pos content
    refine ⟨?_,?_⟩
    · rw [path]
      exact List.pairwise_cons.mpr ⟨fun entry member => Nat.ne_of_gt (bound entry member),opened.apart⟩
    · rw [path]
      intro entry member
      rcases List.mem_cons.mp member with rfl | outer
      · exact ⟨_,List.getElem?_concat_length,(openingExtent_eq_unterminated_iff _ _ _).mpr (Or.inr content)⟩
      · exact kept _ entry outer
  · have path : (outline.enter length tag selfClosing).path = outline.path := if_neg content
    refine ⟨?_,?_⟩
    · rw [path]
      exact opened.apart
    · rw [path]
      exact kept _

theorem lasts_openPath : Lasts OpenPath where
  ended nodes top outer owed closeStart stop extent := by
    rintro ⟨apart,pending⟩
    obtain ⟨others,rest⟩ := List.pairwise_cons.mp apart
    refine ⟨rest,fun entry member => ?_⟩
    obtain ⟨node,found,open_⟩ := pending entry (List.mem_cons_of_mem _ member)
    exact ⟨node,(getElem?_modify_of_ne _ (others entry member)).trans found,open_⟩
  entered _ length tag selfClosing opened := opened.enter length tag selfClosing
  owing _ _ _ _ opened := ⟨opened.apart,opened.pending⟩

theorem OpenPath.past (opened : outline.OpenPath) {i : Nat} {node : Node} (found : outline.nodes[i]? = some node)
    (ended : node.extent ≠ .unterminated) : outline.Past i := by
  refine ⟨(List.getElem?_eq_some_iff.mp found).1,?_⟩
  rintro entry member rfl
  obtain ⟨other,present,extent⟩ := opened.pending entry member
  obtain rfl := Option.some.inj (found.symm.trans present)
  exact ended extent

/-- No tag changes where an element starts and what it stands in. -/
theorem lasts_opened (outline : Outline) :
    Lasts fun next => outline.nodes.map Node.opened <+: next.nodes.map Node.opened where
  ended nodes top outer owed closeStart stop extent started := by
    have same := map_modify Node.opened nodes top.index
      (fun node => { node with closeStart, stop, extent }) fun _ => rfl
    exact started.trans (same ▸ List.prefix_rfl)
  entered next length tag selfClosing started := by
    simp only [enter,List.map_append]
    exact started.trans (List.prefix_append _ _)
  owing _ _ _ _ started := started

end Outline

theorem lex_eq_run {text : List Char} (settled : ∀ last ∈ (lex text).getLast?, last.terminated = true) :
    lex text = (LexPhase.run .text 0 text).1 := by
  have whole := lexFrom_eq_run .text 0 text
  rw [Nat.zero_add] at whole
  cases found : (LexPhase.run .text 0 text).2.finish (byteLength text) with
  | none =>
    rw [lex,whole,found]
    exact List.append_nil _
  | some tag =>
    have last : (lex text).getLast? = some tag := by
      rw [lex,whole,found]
      simp
    have cut := LexPhase.finish_cut _ _ tag found
    rw [settled tag last] at cut
    contradiction

theorem lex_append (first second : List Char) (settled : ∀ last ∈ (lex first).getLast?, last.terminated = true) :
    lex (first ++ second) = lex first ++ lexFrom (phaseAfter first) (byteLength first) second := by
  rw [lex_eq_run settled,lex,lexFrom_append,Nat.zero_add]
  rfl

/-- The element of a text where more text follows it: an end that was found stays, and everything else stays
anyway. -/
structure Node.Continues (before after : Node) : Prop where
  opened : after.opened = before.opened
  ended : before.extent ≠ .unterminated → after = before

theorem outlineNodes_append (first second : List Char)
    (settled : ∀ last ∈ (lex first).getLast?, last.terminated = true) (i : Nat) (before : Node)
    (found : (outlineNodes first)[i]? = some before) :
    ∃ after, (outlineNodes (first ++ second))[i]? = some after ∧ before.Continues after := by
  let length := byteLength (first ++ second)
  let early := (lex first).foldl (Outline.read length) {}
  let later := lexFrom (phaseAfter first) (byteLength first) second
  have read : outlineNodes (first ++ second) = (later.foldl (Outline.read length) early).nodes := by
    rw [outlineNodes,Outline.ofTags,lex_append first second settled,List.foldl_append]
  have present : early.nodes[i]? = some (before.openTo length) := by
    have nodes := congrArg Outline.nodes (Outline.openTo_readAll (byteLength first) length (lex first))
    have longer : early.nodes = (outlineNodes first).map (·.openTo length) := nodes.symm
    rw [longer,List.getElem?_map,found]
    rfl
  obtain ⟨more,same⟩ := (Outline.lasts_opened early).readAll List.prefix_rfl length later
  have kept : ((later.foldl (Outline.read length) early).nodes.map Node.opened)[i]? = some before.opened := by
    have bound : i < (early.nodes.map Node.opened).length := by
      rw [List.length_map]
      exact (List.getElem?_eq_some_iff.mp present).1
    rw [← same,List.getElem?_append_left bound,List.getElem?_map,present,Option.map_some,Node.opened_openTo]
  rw [List.getElem?_map] at kept
  obtain ⟨after,last,opened⟩ := Option.map_eq_some_iff.mp kept
  refine ⟨after,read ▸ last,opened,fun ended => ?_⟩
  -- What has ended is no longer on the path, and no tag that follows can reach it.
  have start : Outline.OpenPath {} := ⟨.nil,by simp⟩
  rw [Node.openTo_of_ended ended] at present
  have past := (Outline.lasts_openPath.readAll start length (lex first)).past present ended
  have unchanged := (past.readAll length later).2
  exact Option.some.inj (last.symm.trans (unchanged.trans present))

/-- The element of a text where more text follows it, with its attributes and role. -/
structure Element.Continues (before after : Element) : Prop where
  name : after.name = before.name
  start : after.start = before.start
  openStop : after.openStop = before.openStop
  attributes : after.attributes = before.attributes
  role : after.role = before.role
  parent : after.parent = before.parent
  depth : after.depth = before.depth
  detached : after.detached = before.detached
  ended : before.extent ≠ .unterminated → after = before

theorem Node.Continues.element {before after : Node} (continues : before.Continues after) (text : List Char) :
    (Element.ofNode text before).Continues (Element.ofNode text after) := by
  have opened := continues.opened
  simp only [Node.opened,Prod.mk.injEq] at opened
  obtain ⟨name,start,openStop,parent,depth,detached⟩ := opened
  have attributes : (Element.ofNode text after).attributes = (Element.ofNode text before).attributes := by
    unfold Element.ofNode
    rw [start,openStop]
  have role : (Element.ofNode text after).role = (Element.ofNode text before).role := by
    change role? after.name (Element.ofNode text after).attributes = _
    rw [name,attributes]
    rfl
  exact ⟨name,start,openStop,attributes,role,parent,depth,detached,fun ended =>
    congrArg (Element.ofNode text) (continues.ended ended)⟩

theorem Element.ofNode_append (first second : List Char) (node : Node) (member : node ∈ outlineNodes first) :
    Element.ofNode (first ++ second) node = Element.ofNode first node := by
  obtain ⟨before,name,inner,after,written⟩ := Node.exists_writtenIn first node member
  unfold Element.ofNode
  rw [written.slice_tag,slice?_append_right _ _ second _ _ written.slice_tag]

theorem forall₂_take_length {α β : Type} {related : α → β → Prop} {first : List α} {second : List β}
    (all : ∀ (i : Nat) before, first[i]? = some before → ∃ after, second[i]? = some after ∧ related before after) :
    List.Forall₂ related first (second.take first.length) := by
  induction first generalizing second with
  | nil => exact .nil
  | cons here rest ih =>
    obtain ⟨top,found,one⟩ := all 0 here rfl
    cases second with
    | nil => contradiction
    | cons other others =>
      obtain rfl := Option.some.inj found
      exact .cons one (ih fun i before later => all (i + 1) before later)

/-- Text behind a text whose last tag is not cut off leaves its elements in place. It can only give an end to
those that have none, whatever it closes, crosses or opens. -/
theorem elements_append (first second : List Char)
    (settled : ∀ last ∈ (lex first).getLast?, last.terminated = true) :
    List.Forall₂ Element.Continues (elements first) ((elements (first ++ second)).take (elements first).length) := by
  apply forall₂_take_length
  intro i before found
  rw [elements_getElem?] at found
  obtain ⟨node,present,rfl⟩ := Option.map_eq_some_iff.mp found
  obtain ⟨after,last,continues⟩ := outlineNodes_append first second settled i node present
  rw [← Element.ofNode_append first second node (List.mem_of_getElem? present)]
  refine ⟨Element.ofNode (first ++ second) after,?_,continues.element _⟩
  rw [elements_getElem?,last]
  rfl

theorem elements_append_crossed :
    let first := "<ul><li role=tab><em>x<b>y</b>".toList
    let second := "</ul></em><p>z".toList
    (∀ last ∈ (lex first).getLast?, last.terminated = true) ∧
      List.Forall₂ Element.Continues (elements first) ((elements (first ++ second)).take (elements first).length) ∧
      (elements first).map (fun element => (element.name,element.extent)) =
        [("ul",.unterminated),("li",.unterminated),("em",.unterminated),("b",.closed)] ∧
      (elements (first ++ second)).map (fun element => (element.name,element.extent)) =
        [("ul",.closed),("li",.implied),("em",.crossed),("b",.closed),("p",.unterminated)] := by
  intro first second
  have settled : ∀ last ∈ (lex first).getLast?, last.terminated = true := by decide +kernel
  exact ⟨settled,elements_append first second settled,by decide +kernel,by decide +kernel⟩

end AccessibleMarkup.Markup
