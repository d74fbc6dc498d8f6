import AccessibleMarkup.Proofs.RegularRepairs
import AccessibleMarkup.Proofs.WrappedTexts
import Mathlib.Data.List.InsertIdx

/-! Elements of a text in which an element has been put into a new list. The forest has the list besides, and all
else is as it was, unless an element ends for want of its closing tag where the new list starts, or the text breaks
off in the closing tag of the element. The main result is `wrap_inserts_iff`. -/
namespace AccessibleMarkup

open Text

namespace Markup

/-- The attribute of a tag that stands `base` bytes further on. -/
def Attribute.shift (base : Nat) (attr : Attribute) : Attribute :=
  { attr with
    range := attr.range.shift base
    nameRange := attr.nameRange.shift base
    valueRange := attr.valueRange.map (·.shift base) }

def WrittenName.shift (base : Nat) (name : WrittenName) : WrittenName :=
  { name with range := name.range.shift base }

namespace AttributePhase

def shift (base : Nat) : AttributePhase → AttributePhase
  | .naming start chars => .naming (base + start) chars
  | .afterName name => .afterName (name.shift base)
  | .afterEquals name => .afterEquals (name.shift base)
  | .unquoted name start chars => .unquoted (name.shift base) (base + start) chars
  | .quoted name mark start chars => .quoted (name.shift base) mark (base + start) chars
  | phase => phase

theorem shift_readGap (base offset : Nat) (c : Char) : readGap (base + offset) c = (readGap offset c).shift base := by
  unfold readGap
  split_ifs <;> rfl

theorem shift_readTagName (base offset : Nat) (c : Char) :
    readTagName (base + offset) c = (readTagName offset c).shift base := by
  unfold readTagName
  split_ifs
  · exact shift_readGap base offset c
  · rfl

theorem shift_step (base : Nat) (phase : AttributePhase) (offset : Nat) (c : Char) :
    (phase.shift base).step (base + offset) c =
      ((phase.step offset c).1.shift base,(phase.step offset c).2.map (·.shift base)) := by
  have gap := shift_readGap base offset c
  have name := shift_readTagName base offset c
  cases phase with
  | outside =>
    simp only [shift,step]
    split_ifs
    · rfl
    · rw [name]
      rfl
  | tagName => exact Prod.ext name rfl
  | gap => exact Prod.ext gap rfl
  | done => rfl
  | _ =>
    simp only [shift,step]
    split_ifs <;> first | rfl | (rw [gap]; rfl)

theorem shift_finish (base : Nat) (phase : AttributePhase) (length : Nat) :
    (phase.shift base).finish (base + length) = (phase.finish length).map (·.shift base) := by
  cases phase <;> rfl

end AttributePhase

theorem readAttributesFrom_shift (base : Nat) (phase : AttributePhase) (offset : Nat) (text : List Char) :
    readAttributesFrom (phase.shift base) (base + offset) text =
      (readAttributesFrom phase offset text).map (·.shift base) := by
  induction text generalizing phase offset with
  | nil =>
    rw [readAttributesFrom,readAttributesFrom,phase.shift_finish,Option.toList_map]
  | cons c rest ih =>
    rw [readAttributesFrom_cons,readAttributesFrom_cons,phase.shift_step,Nat.add_assoc,ih,List.map_append,
      Option.toList_map]

theorem attributeValue?_shift (base : Nat) (attributes : List Attribute) (name : String) :
    attributeValue? (attributes.map (·.shift base)) name = attributeValue? attributes name := by
  unfold attributeValue? findAttribute?
  rw [List.find?_map,Option.map_map]
  rfl

theorem Element.ofNode_moved {text result : List Char} {node other : Node} (base : Nat)
    (start : other.start = base + node.start) (named : other.name = node.name)
    (same : slice? result other.start other.openStop = slice? text node.start node.openStop) :
    Element.ofNode result other = { toNode := other
                                    attributes := (Element.ofNode text node).attributes.map (·.shift base)
                                    role := (Element.ofNode text node).role } := by
  have attributes : (Element.ofNode result other).attributes =
      (Element.ofNode text node).attributes.map (·.shift base) := by
    simp only [ofNode,same]
    cases slice? text node.start node.openStop with
    | none => rfl
    | some tag => rw [start]; exact readAttributesFrom_shift base .outside node.start tag
  have role : (Element.ofNode result other).role = (Element.ofNode text node).role := by
    change role? other.name (Element.ofNode result other).attributes = role? node.name (Element.ofNode text node).attributes
    rw [attributes,named]
    exact role?_congr _ _ _ fun attr _ => attributeValue?_shift base _ attr
  rw [← attributes,← role]
  rfl

/-- An element of the text where the list has been put in. -/
def Wrapping.element (place : Wrapping) (element : Element) : Element where
  toNode := place.node element.toNode
  attributes := element.attributes.map (·.shift (place.move element.start element.start - element.start))
  role := element.role

/-- The new list around the element. -/
def Wrapping.listElement (place : Wrapping) (element : Element) : Element where
  toNode := place.list element.toNode
  attributes := []
  role := some "list"

variable {text before name inner body after : List Char} {node other : Node} {k i : Nat}

namespace Node.PiecesIn

theorem slice_node (pieces : node.PiecesIn text before name inner body after) (found : (outlineNodes text)[k]? = some node)
    (present : (outlineNodes text)[i]? = some other) :
    slice? (wrapText before name inner body after) ((node.wrapping k).node other).start
        ((node.wrapping k).node other).openStop = slice? text other.start other.openStop ∧
      other.start ≤ ((node.wrapping k).node other).start := by
  have forest := outlineNodes_forest text
  have spans := forest.spans k node found
  have own := forest.spans i other present
  have apart := pieces.slice_wrapText other.start other.openStop own.1.le
  unfold Node.Spans at spans own
  change slice? _ ((node.wrapping k).move other.start other.start) ((node.wrapping k).move other.start other.openStop) = _ ∧
    other.start ≤ (node.wrapping k).move other.start other.start
  by_cases held : (node.wrapping k).Holds other.start
  · have inside : other.openStop ≤ node.stop := by
      have within : node.start ≤ other.start ∧ other.start < node.stop := held
      rcases eq_or_ne k i with rfl | differ
      · obtain rfl := Option.some.inj (found.symm.trans present)
        omega
      · rcases forest.nested_or_apart found present differ with inside | around | before | behind <;> omega
    have move (offset : Nat) : (node.wrapping k).move other.start offset = offset + 4 := if_pos held
    rw [move,move]
    exact ⟨apart.2.1 held.1 inside,Nat.le_add_right _ _⟩
  · have move (offset : Nat) : (node.wrapping k).move other.start offset = if offset ≤ node.start then offset else offset + 9 :=
      if_neg held
    rcases Nat.lt_or_ge other.start node.start with before | behind
    · have ahead : other.openStop ≤ node.start := by
        rcases eq_or_apart (List.mem_of_getElem? present) (List.mem_of_getElem? found) with rfl | ahead | behind <;> omega
      rw [move,move,if_pos before.le,if_pos ahead]
      exact ⟨apart.1 ahead,le_rfl⟩
    · have beyond : node.stop ≤ other.start := Nat.not_lt.mp fun inside => held ⟨behind,inside⟩
      rw [move,move,if_neg (by omega),if_neg (by omega)]
      exact ⟨apart.2.2 beyond,Nat.le_add_right _ _⟩

theorem elements_wrapped (pieces : node.PiecesIn text before name inner body after)
    (found : (outlineNodes text)[k]? = some node)
    (nodes : outlineNodes (wrapText before name inner body after) =
      ((outlineNodes text).map (node.wrapping k).node).insertIdx k ((node.wrapping k).list node)) :
    elements (wrapText before name inner body after) =
      ((elements text).map (node.wrapping k).element).insertIdx k
        ((node.wrapping k).listElement (Element.ofNode text node)) := by
  have list : Element.ofNode (wrapText before name inner body after) ((node.wrapping k).list node) =
      (node.wrapping k).listElement (Element.ofNode text node) := by
    have opening : slice? (wrapText before name inner body after) ((node.wrapping k).list node).start
        ((node.wrapping k).list node).openStop = some "<ul>".toList := pieces.slice_listOpening
    rw [Element.ofNode,opening]
    have bare : readAttributes "<ul>".toList ((node.wrapping k).list node).start = [] := rfl
    have role : role? ((node.wrapping k).list node).name [] = some "list" := (by decide : role? "ul" [] = some "list")
    dsimp only
    rw [bare,role]
    rfl
  rw [elements,nodes,List.map_insertIdx,list,elements,List.map_map,List.map_map]
  congr 1
  refine List.map_congr_left fun other member => ?_
  obtain ⟨i,present⟩ := List.mem_iff_getElem?.mp member
  obtain ⟨same,further⟩ := pieces.slice_node found present
  exact Element.ofNode_moved (((node.wrapping k).node other).start - other.start) (Nat.sub_add_cancel further).symm rfl same

theorem exists_sibling (pieces : node.PiecesIn text before name inner body after)
    (found : (outlineNodes text)[k]? = some node) (known : node.extent.isKnown = true)
    (ended : (frontOutline text before).endSibling node.name node.start ≠ frontOutline text before) :
    ∃ sibling ∈ outlineNodes text, sibling.extent = .implied ∧ sibling.stop = node.start ∧
      node.parent ≠ (frontOutline text before).path.head?.map (·.index) := by
  obtain ⟨slash,ending,_⟩ := pieces.written.ending (List.mem_of_getElem? found) known
  obtain ⟨_,opened⟩ := pieces.opened found known
  have path := Outline.ofTags_openPath (byteLength text) (LexPhase.run .text 0 before).1
  change (frontOutline text before).OpenPath at path
  have parent : node.parent = ((frontOutline text before).endSibling node.name node.start).path.head?.map (·.index) :=
    congrArg (·.2.2.2.1) opened
  have nodes := pieces.outlineNodes_eq ending
  rw [List.foldl_cons] at nodes
  have read : (frontOutline text before).read (byteLength text) (node.openingTag name slash) =
      ((frontOutline text before).endSibling node.name node.start).enter (byteLength text) (node.openingTag name slash)
        slash := by
    have label : asciiLower (node.openingTag name slash).name = node.name := pieces.written.named.symm
    rw [Outline.read_of_opening rfl,label]
    rfl
  generalize frontOutline text before = front at path parent nodes read ended ⊢
  have step := front.siblingStep node.name node.start
  generalize front.endSibling node.name node.start = passed at step parent read ended
  cases step with
  | stays => exact absurd rfl ended
  | ends top outer entries =>
    have apart := path.apart
    rw [entries,List.pairwise_cons] at apart
    obtain ⟨sibling,present,extent,stop⟩ := path.endAll_stop (show front.path = [top] ++ outer from entries)
      (List.mem_singleton_self top) node.start fun _ => .implied
    have past : Outline.Past ⟨Outline.endAll front.nodes [top] node.start fun _ => .implied,outer,front.owed⟩
        top.index :=
      ⟨(List.getElem?_eq_some_iff.mp present).1,fun entry member same => apart.1 entry member same.symm⟩
    obtain ⟨entered,kept⟩ := past.enter (byteLength text) (node.openingTag name slash) slash
    rw [← read] at entered kept
    have last := (entered.readAll (byteLength text)
      (lexFrom (LexPhase.afterOpening (String.ofList name) slash) node.openStop (body ++ after))).2
    rw [← nodes,kept] at last
    refine ⟨sibling,List.mem_of_getElem? (last.trans present),extent,stop,?_⟩
    rw [parent,entries]
    intro same
    cases outer with
    | nil => contradiction
    | cons next rest => exact apart.1 next List.mem_cons_self (Option.some.inj same).symm

theorem encloses_of_open (pieces : node.PiecesIn text before name inner body after)
    (found : (outlineNodes text)[k]? = some node) (known : node.extent.isKnown = true)
    (spared : (frontOutline text before).endSibling node.name node.start = frontOutline text before) {entry : OpenNode}
    (member : entry ∈ (frontOutline text before).path) : Encloses (outlineNodes text) entry.index k := by
  obtain ⟨slash,ending,_⟩ := pieces.written.ending (List.mem_of_getElem? found) known
  obtain ⟨_,opened⟩ := pieces.opened found known
  rw [spared] at opened
  have lexed := pieces.lex_eq ending
  have reached : (frontOutline text before).Reached (byteLength text) node.start :=
    (Outline.reached_start _).readFront (lexed ▸ lex_inOrder text)
  have kept : (frontOutline text before).nodes.map Node.opened <+: (outlineNodes text).map Node.opened := by
    rw [pieces.outlineNodes_eq ending]
    exact (Outline.lasts_opened _).readAll List.prefix_rfl _ _
  have link (i outer : Nat) (parent : parentAt (frontOutline text before).nodes i = some outer) :
      parentAt (outlineNodes text) i = some outer := by
    obtain ⟨first,present,parent⟩ := Option.bind_eq_some_iff.mp parent
    obtain ⟨more,same⟩ := kept
    have here := congrArg (·[i]?) same
    rw [List.getElem?_append_left (by simpa using (List.getElem?_eq_some_iff.mp present).1),List.getElem?_map,
      List.getElem?_map,present] at here
    obtain ⟨last,there,alike⟩ := Option.map_eq_some_iff.mp here.symm
    rw [parentAt,there]
    exact (congrArg (·.2.2.2.1) alike).trans parent
  have parent : parentAt (outlineNodes text) k = (frontOutline text before).path.head?.map (·.index) := by
    rw [parentAt,found]
    exact congrArg (·.2.2.2.1) opened
  have linked := reached.linked
  generalize (frontOutline text before).path = path at member parent linked
  cases path with
  | nil => contradiction
  | cons top outer =>
    rcases List.mem_cons.mp member with rfl | further
    · exact .parent parent
    · exact .beyond parent ((linked.encloses entry further).mono link)

theorem stop_ne_start (pieces : node.PiecesIn text before name inner body after)
    (found : (outlineNodes text)[k]? = some node) (known : node.extent.isKnown = true)
    (spared : (frontOutline text before).endSibling node.name node.start = frontOutline text before)
    (present : (outlineNodes text)[i]? = some other) (implied : other.extent = .implied) : other.stop ≠ node.start := by
  intro stop
  obtain ⟨slash,ending,_⟩ := pieces.written.ending (List.mem_of_getElem? found) known
  obtain ⟨number,_⟩ := pieces.opened found known
  have forest := outlineNodes_forest text
  have spans := forest.spans k node found
  have own := forest.spans i other present
  unfold Node.Spans at spans own
  have order := forest.lt_iff present found
  have earlier : i < (frontOutline text before).nodes.length := by omega
  by_cases open_ : ∃ entry ∈ (frontOutline text before).path, entry.index = i
  · obtain ⟨entry,member,rfl⟩ := open_
    have := (pieces.encloses_of_open found known spared member).inside forest other node present found
    omega
  · -- The element has ended before one of the tags ahead, so it stops before the last of them.
    have past : (frontOutline text before).Past i := ⟨earlier,fun entry member same => open_ ⟨entry,member,same⟩⟩
    have start : Outline.EndsBy (byteLength text) (LexPhase.run .text 0 before).1 {} := ⟨by simp,by simp⟩
    have ends := (start.readAll (LexPhase.run .text 0 before).1 fun _ => id).ends
    have last : (frontOutline text before).nodes[i]? = some other := by
      rw [← present,pieces.outlineNodes_eq ending]
      exact (past.readAll (byteLength text) _).2.symm
    cases ends other (List.mem_of_getElem? last) with
    | before tag lexed _ _ ends =>
      have := run_between before tag lexed
      have := pieces.written.start
      omega
    | closing _ _ _ _ _ _ own => exact own implied
    | opening _ _ _ own => exact own implied
    | atEnd _ _ _ own => exact own implied

end Node.PiecesIn

/-- No other element ends for want of its closing tag where the element starts, and the closing tag of the element
is not cut off. -/
structure Element.StandsAlone (text : List Char) (element : Element) : Prop where
  apart : ∀ other ∈ elements text, other.extent = .implied → other.stop ≠ element.start
  whole : ∀ tag ∈ lex text, tag.stop = element.stop → tag.terminated = true

theorem Node.PiecesIn.elements_of_standsAlone (pieces : node.PiecesIn text before name inner body after)
    (known : ∀ node ∈ outlineNodes text, node.extent.isKnown = true) (found : (outlineNodes text)[k]? = some node)
    (alone : (Element.ofNode text node).StandsAlone text) :
    elements (wrapText before name inner body after) =
      ((elements text).map (node.wrapping k).element).insertIdx k
        ((node.wrapping k).listElement (Element.ofNode text node)) := by
  refine pieces.elements_wrapped found (pieces.outlineNodes_wrapped known found ?_ alone.whole)
  by_contra ended
  obtain ⟨sibling,member,extent,stop,_⟩ := pieces.exists_sibling found (known node (List.mem_of_getElem? found)) ended
  exact alone.apart (Element.ofNode text sibling) (List.mem_map_of_mem member) extent stop

theorem Node.PiecesIn.standsAlone_of_list (pieces : node.PiecesIn text before name inner body after)
    (known : ∀ node ∈ outlineNodes text, node.extent.isKnown = true) (found : (outlineNodes text)[k]? = some node)
    {list : Node} (listed : (outlineNodes (wrapText before name inner body after))[k]? = some list)
    (parent : list.parent = node.parent) (closed : list.extent = .closed) :
    (Element.ofNode text node).StandsAlone text := by
  have here := known node (List.mem_of_getElem? found)
  obtain ⟨first,_,present,_,opened,_⟩ := pieces.wrapped_opened found here
  obtain rfl := Option.some.inj (listed.symm.trans present)
  have spared : (frontOutline text before).endSibling node.name node.start = frontOutline text before := by
    by_contra ended
    obtain ⟨_,_,_,_,other⟩ := pieces.exists_sibling found here ended
    exact other (parent.symm.trans (congrArg (·.2.2.2.1) opened))
  refine ⟨fun other member implied => ?_,fun tag lexed stop => ?_⟩
  · obtain ⟨inside,present,rfl⟩ := List.mem_map.mp member
    obtain ⟨i,there⟩ := List.mem_iff_getElem?.mp present
    exact pieces.stop_ne_start found here spared there implied
  · by_contra cut
    obtain ⟨last,there,open_⟩ := pieces.unterminated_of_cut known found spared lexed stop (by simpa using cut)
    obtain rfl := Option.some.inj (listed.symm.trans there)
    rw [closed] at open_
    contradiction

end Markup

open Markup

/-- A new list around an element is the one thing that changes in the forest of the elements, if the element stands
alone. Otherwise the list stands in another element than the element did, or it is not closed. -/
theorem wrap_inserts_iff {text : List Char} (known : ∀ element ∈ elements text, element.isKnown = true) {k : Nat}
    {element : Element} (found : (elements text)[k]? = some element) {edit : Edit}
    (planned : (Fix.wrap "ul" []).plan text element.start Filter.keep = .ok (.applied edit)) :
    ∃ result list, edit.apply text = .ok result ∧ (elements result)[k]? = some list ∧ list.name = "ul" ∧
      (elements result = ((elements text).map (element.wrapping k).element).insertIdx k
          ((element.wrapping k).listElement element) ↔ element.StandsAlone text) ∧
      (list.parent = element.parent ∧ list.extent = .closed ↔ element.StandsAlone text) := by
  have ends : ∀ node ∈ outlineNodes text, node.extent.isKnown = true :=
    fun node member => known _ (List.mem_map_of_mem member)
  obtain ⟨node,present,rfl⟩ := Option.map_eq_some_iff.mp ((elements_getElem? text k).symm.trans found)
  have member := List.mem_of_getElem? present
  obtain ⟨before,name,inner,body,after,pieces⟩ := Node.exists_piecesIn member
  obtain ⟨here,applied⟩ := pieces.apply_wrap member planned
  obtain ⟨list,_,listed,_,opened,_⟩ := pieces.wrapped_opened present here
  have shown := (elements_getElem? (wrapText before name inner body after) k).trans (congrArg _ listed)
  have inserted := pieces.elements_of_standsAlone ends present
  have alone := pieces.standsAlone_of_list ends present listed
  have size := (List.getElem?_eq_some_iff.mp found).1
  have kept (same : elements (wrapText before name inner body after) =
      ((elements text).map (node.wrapping k).element).insertIdx k
        ((node.wrapping k).listElement (Element.ofNode text node))) : list.parent = node.parent ∧ list.extent = .closed := by
    rw [same,List.getElem?_insertIdx,if_neg (Nat.lt_irrefl k),if_pos rfl,if_pos (by simpa using size.le)] at shown
    have equal := congrArg Element.toNode (Option.some.inj shown)
    exact ⟨(congrArg Node.parent equal).symm,(congrArg Node.extent equal).symm⟩
  exact ⟨_,_,applied,shown,congrArg (·.1) opened,⟨fun same => alone (kept same).1 (kept same).2,inserted⟩,
    fun kept => alone kept.1 kept.2,fun stands => kept (inserted stands)⟩

theorem wrapped_item_swallowed :
    let text := "<div><li>a<li>b</li></div>".toList
    (∀ element ∈ elements text, element.isKnown = true) ∧ ∃ element edit, (elements text)[2]? = some element ∧
      (Fix.wrap "ul" []).plan text element.start Filter.keep = .ok (.applied edit) ∧
      ∃ result list, edit.apply text = .ok result ∧ (elements result)[2]? = some list ∧
        elements result ≠ ((elements text).map (element.wrapping 2).element).insertIdx 2
          ((element.wrapping 2).listElement element) ∧
        ¬ (list.parent = element.parent ∧ list.extent = .closed) := by
  intro text
  have known : ∀ element ∈ elements text, element.isKnown = true := by decide +kernel
  have second : (elements text)[2]?.map (·.start) = some 10 := by decide +kernel
  obtain ⟨element,found,start⟩ := Option.map_eq_some_iff.mp second
  have planned : (Fix.wrap "ul" []).plan text 10 Filter.keep =
      .ok (.applied ⟨⟨10,20⟩,"<ul><li>b</li></ul>".toList⟩) := by decide +kernel
  rw [← start] at planned
  obtain ⟨result,list,applied,listed,_,forest,place⟩ := wrap_inserts_iff known found planned
  have ended : ∃ other ∈ elements text, other.extent = .implied ∧ other.stop = 10 := by decide +kernel
  have crowded : ¬ element.StandsAlone text := fun alone => by
    obtain ⟨other,member,implied,stop⟩ := ended
    exact alone.apart other member implied (stop.trans start.symm)
  exact ⟨known,element,_,found,planned,result,list,applied,listed,fun same => crowded (forest.mp same),
    fun kept => crowded (place.mp kept)⟩

end AccessibleMarkup
