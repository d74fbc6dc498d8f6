import AccessibleMarkup.Proofs.ElementRenaming
import AccessibleMarkup.Proofs.ListRenaming
import AccessibleMarkup.Proofs.PlannedEdits

/-! An element that is put into a new list. The tags before it are read as they were, and then comes the tag
of the list, in which the element starts. -/
namespace AccessibleMarkup

open Text Markup

namespace Markup

/-- An element in a text, with what its tag is made of and what follows the tag up to the end of the element. -/
structure Node.PiecesIn (text : List Char) (node : Node) (before name inner body after : List Char) : Prop where
  written : node.WrittenIn text before name inner (body ++ after)
  stop : node.stop = node.openStop + byteLength body

variable {text before name inner body after : List Char} {node : Node} {k : Nat}

theorem Node.exists_piecesIn (member : node ∈ outlineNodes text) :
    ∃ before name inner body after, node.PiecesIn text before name inner body after := by
  obtain ⟨before,name,inner,rest,written⟩ := Node.exists_writtenIn text node member
  have kept : Filter.apply Filter.keep text = text := rfl
  rw [← kept] at member
  obtain ⟨front,label,tag,body,after,parts⟩ := Filter.exists_partsIn member
  obtain ⟨i,found⟩ := List.mem_iff_getElem?.mp member
  obtain ⟨_,first,last,_⟩ := (outlineNodes_forest _).spans i node found
  have opened : byteLength (before ++ '<' :: (name ++ inner)) = node.openStop := by
    rw [written.openStop,← written.start]
    grind
  have stopped : byteLength (front ++ '<' :: (label ++ (tag ++ body))) = node.stop := by
    rw [parts.stop,parts.openStop,← parts.start]
    grind
  have same : (before ++ '<' :: (name ++ inner)) ++ rest = (front ++ '<' :: (label ++ (tag ++ body))) ++ after := by
    have whole := written.parts.symm.trans parts.parts
    simpa using whole
  obtain ⟨content,whole,rfl⟩ := append_of_byteLength_le same (by omega)
  refine ⟨before,name,inner,content,after,written,?_⟩
  rw [← stopped,whole,byteLength_append,opened]

def wrapText (before name inner body after : List Char) : List Char :=
  before ++ ("<ul>".toList ++ ('<' :: (name ++ (inner ++ (body ++ ("</ul>".toList ++ after))))))

theorem Node.PiecesIn.apply_wrap (pieces : node.PiecesIn text before name inner body after)
    (member : node ∈ outlineNodes text) {edit : Edit}
    (planned : (Fix.wrap "ul" []).plan text node.start Filter.keep = .ok (.applied edit)) :
    node.extent.isKnown = true ∧ edit.apply text = .ok (wrapText before name inner body after) := by
  have opened := (Element.openStop_le (List.mem_map_of_mem member)).1
  obtain ⟨parent,plan⟩ := (Fix.wrap "ul" []).plan_inside text node member node.start le_rfl opened (by decide)
  rw [plan] at planned
  cases Fix.planOn_eq_applied_iff.mp planned with
  | wrap _ _ known _ made =>
    refine ⟨known,?_⟩
    have stop : node.stop = byteLength before + byteLength ('<' :: (name ++ (inner ++ body))) := by
      rw [pieces.stop,pieces.written.openStop,← pieces.written.start]
      grind
    have parts : text = before ++ ('<' :: (name ++ (inner ++ body)) ++ after) := by
      rw [pieces.written.parts]
      simp
    rw [Fix.wrapElement,Fix.sliceForEdit,← pieces.written.start,stop,parts,slice?_append] at made
    have written : (⟨⟨byteLength before,byteLength before + byteLength ('<' :: (name ++ (inner ++ body)))⟩,
        '<' :: "ul".toList ++ [] ++ ['>'] ++ ('<' :: (name ++ (inner ++ body))) ++ ['<','/'] ++ "ul".toList ++
          ['>']⟩ : Edit) = edit := Except.ok.inj made
    rw [← written,parts,Edit.apply_replacement,wrapText]
    simp

def listOpening (start : Nat) : Tag := ⟨.opening false,"ul",start,start + 4,true⟩

theorem tagName_ul : TagName ['u','l'] := ⟨⟨'u',['l'],rfl,rfl⟩,List.all_eq_true.mp rfl,by decide⟩

theorem Ready.run_listOpening (ready : Ready before) :
    LexPhase.run .text 0 (before ++ "<ul>".toList) =
      ((LexPhase.run .text 0 before).1 ++ [listOpening (byteLength before)],.text) := by
  have ended : tagEnding? ['>'] = some false := by decide
  exact ready.run_tag tagName_ul ['>'] false ended

theorem Ready.after_listOpening (ready : Ready before) : Ready (before ++ "<ul>".toList) := by
  refine ready_of_afterBlank ?_
  rw [phaseAfter,ready.run_listOpening]
  rfl

theorem byteLength_listOpening : byteLength "<ul>".toList = 4 := by decide

def Node.openingTag (node : Node) (name : List Char) (slash : Bool) : Tag :=
  ⟨.opening slash,String.ofList name,node.start,node.openStop,true⟩

theorem Node.PiecesIn.lex_eq (pieces : node.PiecesIn text before name inner body after) {slash : Bool}
    (ending : tagEnding? inner = some slash) : lex text =
      (LexPhase.run .text 0 before).1 ++ node.openingTag name slash ::
        lexFrom (LexPhase.afterOpening (String.ofList name) slash) node.openStop (body ++ after) := by
  have written := pieces.written
  have lexed := written.ready.lex_tag name inner (body ++ after) written.tag.letter written.tag.written slash ending
  rwa [← written.parts,written.start,← written.openStop] at lexed

theorem Node.PiecesIn.lex_wrapped (pieces : node.PiecesIn text before name inner body after) {slash : Bool}
    (ending : tagEnding? inner = some slash) : lex (wrapText before name inner body after) =
      (LexPhase.run .text 0 before).1 ++ listOpening node.start ::
        (node.openingTag name slash).shift (· + 4) ::
          lexFrom (LexPhase.afterOpening (String.ofList name) slash) (node.openStop + 4)
            (body ++ ("</ul>".toList ++ after)) := by
  have written := pieces.written
  have lexed := written.ready.after_listOpening.lex_tag name inner (body ++ ("</ul>".toList ++ after))
    written.tag.letter written.tag.written slash ending
  have start : byteLength (before ++ "<ul>".toList) = node.start + 4 := by
    rw [byteLength_append,byteLength_listOpening,written.start]
  have stop : node.start + 4 + 1 + byteLength name + byteLength inner = node.openStop + 4 := by
    rw [written.openStop]
    omega
  rw [written.ready.run_listOpening,start,stop,written.start] at lexed
  rw [wrapText,← List.append_assoc,lexed,List.append_assoc]
  rfl

namespace Node.PiecesIn

theorem byteLength_read (pieces : node.PiecesIn text before name inner body after) :
    byteLength (before ++ '<' :: (name ++ inner)) = node.openStop ∧
      byteLength ((before ++ '<' :: (name ++ inner)) ++ body) = node.stop := by
  have opened : byteLength (before ++ '<' :: (name ++ inner)) = node.openStop := by
    rw [pieces.written.openStop,← pieces.written.start]
    grind
  exact ⟨opened,by rw [byteLength_append,opened,pieces.stop]⟩

theorem slice_listOpening (pieces : node.PiecesIn text before name inner body after) :
    slice? (wrapText before name inner body after) node.start (node.start + 4) = some "<ul>".toList := by
  have found := slice?_append before "<ul>".toList ('<' :: (name ++ (inner ++ (body ++ ("</ul>".toList ++ after)))))
  rwa [byteLength_listOpening,pieces.written.start] at found

theorem slice_wrapText (pieces : node.PiecesIn text before name inner body after) (first last : Nat)
    (ordered : first ≤ last) :
    (last ≤ node.start → slice? (wrapText before name inner body after) first last = slice? text first last) ∧
      (node.start ≤ first → last ≤ node.stop →
        slice? (wrapText before name inner body after) (first + 4) (last + 4) = slice? text first last) ∧
      (node.stop ≤ first →
        slice? (wrapText before name inner body after) (first + 9) (last + 9) = slice? text first last) := by
  have start := pieces.written.start
  have reach := pieces.byteLength_read.2
  have size : byteLength ('<' :: (name ++ (inner ++ body))) = node.stop - node.start := by
    rw [← reach,← start]
    grind
  have old : text = before ++ ('<' :: (name ++ (inner ++ body)) ++ after) := by
    rw [pieces.written.parts]
    simp
  refine ⟨fun ahead => ?_,fun behind inside => ?_,fun behind => ?_⟩
  · rw [old,wrapText,slice?_append_of_le _ _ _ _ (by omega),slice?_append_of_le _ _ _ _ (by omega)]
  · have new : wrapText before name inner body after =
        (before ++ "<ul>".toList) ++ ('<' :: (name ++ (inner ++ body)) ++ ("</ul>".toList ++ after)) := by
      simp [wrapText]
    have moved : byteLength (before ++ "<ul>".toList) = node.start + 4 := by
      rw [byteLength_append,byteLength_listOpening,start]
    obtain ⟨x,rfl⟩ := Nat.exists_eq_add_of_le behind
    obtain ⟨y,rfl⟩ := Nat.exists_eq_add_of_le (behind.trans ordered)
    rw [Nat.add_right_comm _ x,Nat.add_right_comm _ y,new,old,← moved,← start,slice?_append_add,slice?_append_add,
      slice?_append_of_le _ _ _ _ (by omega),slice?_append_of_le _ _ _ _ (by omega)]
  · have whole : text = ((before ++ '<' :: (name ++ inner)) ++ body) ++ after := by
      rw [pieces.written.parts]
      simp
    have new : wrapText before name inner body after =
        (before ++ ("<ul>".toList ++ ('<' :: (name ++ (inner ++ body)) ++ "</ul>".toList))) ++ after := by
      simp [wrapText]
    have five : byteLength "</ul>".toList = 5 := by decide
    have moved : byteLength (before ++ ("<ul>".toList ++ ('<' :: (name ++ (inner ++ body)) ++ "</ul>".toList))) =
        node.stop + 9 := by
      rw [byteLength_append,byteLength_append,byteLength_append,byteLength_listOpening,five,size,start]
      have : node.start ≤ node.stop := by
        grind
      omega
    obtain ⟨x,rfl⟩ := Nat.exists_eq_add_of_le behind
    obtain ⟨y,rfl⟩ := Nat.exists_eq_add_of_le (behind.trans ordered)
    rw [Nat.add_right_comm _ x,Nat.add_right_comm _ y,new,whole,← moved,← reach,slice?_append_add,slice?_append_add]

theorem slice_tag (pieces : node.PiecesIn text before name inner body after) (found : (outlineNodes text)[k]? = some node) :
    slice? (wrapText before name inner body after) (node.start + 4) (node.openStop + 4) =
      slice? text node.start node.openStop := by
  obtain ⟨opened,filled,ended,_⟩ := (outlineNodes_forest text).spans k node found
  exact (pieces.slice_wrapText node.start node.openStop opened.le).2.1 le_rfl (filled.trans ended)

end Node.PiecesIn

namespace Outline

theorem getElem?_nested (length : Nat) (front rest : List Tag) (outer tag : Tag) (selfClosing : Bool)
    (opens : outer.kind = .opening false) (terminated : outer.terminated = true)
    (lasting : Lasting (asciiLower outer.name)) (kind : tag.kind = .opening selfClosing) :
    ∃ one two, (ofTags length (front ++ outer :: tag :: rest)).nodes[(ofTags length front).nodes.length]? = some one ∧
      (ofTags length (front ++ outer :: tag :: rest)).nodes[(ofTags length front).nodes.length + 1]? = some two ∧
      one.opened = (asciiLower outer.name,outer.start,outer.stop,(ofTags length front).path.head?.map (·.index),
        (ofTags length front).path.length,!(ofTags length front).owed.isEmpty) ∧
      two.opened = (asciiLower tag.name,tag.start,tag.stop,some (ofTags length front).nodes.length,
        (ofTags length front).path.length + 1,!(ofTags length front).owed.isEmpty) := by
  obtain ⟨one,first,opened⟩ := getElem?_opened length front (tag :: rest) outer false opens
  obtain ⟨two,second,inside⟩ := getElem?_opened length (front ++ [outer]) rest tag selfClosing kind
  have entered : ofTags length (front ++ [outer]) = (ofTags length front).enter length outer false := by
    rw [ofTags,List.foldl_append]
    exact read_lasting _ _ _ opens lasting
  have content : hasContent outer false (asciiLower outer.name) = true := by
    simp [hasContent,terminated,lasting.content]
  have path : (ofTags length (front ++ [outer])).path =
      ⟨(ofTags length front).nodes.length,asciiLower outer.name⟩ :: (ofTags length front).path := by
    rw [entered,enter]
    exact if_pos content
  have top : ((ofTags length (front ++ [outer])).endSibling (asciiLower tag.name) tag.start).path =
      ⟨(ofTags length front).nodes.length,asciiLower outer.name⟩ :: (ofTags length front).path := by
    rw [endSibling_in_lasting path lasting,path]
  have size : (ofTags length (front ++ [outer])).nodes.length = (ofTags length front).nodes.length + 1 := by
    rw [entered,enter]
    simp
  have owed : (ofTags length (front ++ [outer])).owed = (ofTags length front).owed := by
    rw [entered]
    rfl
  rw [endSibling_of_lasting lasting] at opened
  rw [List.append_assoc,List.singleton_append,size] at second
  rw [top,owed] at inside
  exact ⟨one,two,first,second,opened,inside⟩

end Outline

def frontOutline (text before : List Char) : Outline :=
  Outline.ofTags (byteLength text) (LexPhase.run .text 0 before).1

/-- The number of an element, and what its opening tag says of it. -/
theorem Node.PiecesIn.opened (pieces : node.PiecesIn text before name inner body after)
    (found : (outlineNodes text)[k]? = some node) (known : node.extent.isKnown = true) :
    k = (frontOutline text before).nodes.length ∧
    node.opened = (node.name,node.start,node.openStop,
      ((frontOutline text before).endSibling node.name node.start).path.head?.map (·.index),
      ((frontOutline text before).endSibling node.name node.start).path.length,
      !(frontOutline text before).owed.isEmpty) := by
  obtain ⟨slash,ending,_⟩ := pieces.written.ending (List.mem_of_getElem? found) known
  obtain ⟨started,present,opened⟩ := Outline.getElem?_opened (byteLength text) (LexPhase.run .text 0 before).1
    (lexFrom (LexPhase.afterOpening (String.ofList name) slash) node.openStop (body ++ after))
    (node.openingTag name slash) slash rfl
  rw [← pieces.lex_eq ending,← outlineNodes] at present
  have place : started.start = node.start := congrArg (·.2.1) opened
  obtain rfl := (outlineNodes_forest text).index_of_start present found place
  obtain rfl := Option.some.inj (found.symm.trans present)
  have label : asciiLower (node.openingTag name slash).name = node.name := pieces.written.named.symm
  rw [label] at opened
  exact ⟨rfl,opened⟩

theorem Outline.ofTags_openTo (length other : Nat) (tags : List Tag) :
    (ofTags length tags).relabel (·.openTo other) = ofTags other tags := openTo_readAll length other tags

theorem Outline.ofTags_lengths (length other : Nat) (tags : List Tag) :
    (ofTags other tags).nodes.length = (ofTags length tags).nodes.length ∧
      (ofTags other tags).path = (ofTags length tags).path ∧ (ofTags other tags).owed = (ofTags length tags).owed := by
  rw [← ofTags_openTo length other tags]
  exact ⟨List.length_map _,rfl,rfl⟩

theorem Node.PiecesIn.wrapped_opened (pieces : node.PiecesIn text before name inner body after)
    (found : (outlineNodes text)[k]? = some node) (known : node.extent.isKnown = true) :
    ∃ list item, (outlineNodes (wrapText before name inner body after))[k]? = some list ∧
      (outlineNodes (wrapText before name inner body after))[k + 1]? = some item ∧
      list.opened = ("ul",node.start,node.start + 4,(frontOutline text before).path.head?.map (·.index),
        (frontOutline text before).path.length,!(frontOutline text before).owed.isEmpty) ∧
      item.opened = (node.name,node.start + 4,node.openStop + 4,some k,(frontOutline text before).path.length + 1,
        !(frontOutline text before).owed.isEmpty) := by
  obtain ⟨slash,ending,_⟩ := pieces.written.ending (List.mem_of_getElem? found) known
  obtain ⟨number,_⟩ := pieces.opened found known
  have lexed := pieces.lex_wrapped ending
  generalize wrapText before name inner body after = result at lexed ⊢
  obtain ⟨same,path,owed⟩ := Outline.ofTags_lengths (byteLength text) (byteLength result) (LexPhase.run .text 0 before).1
  change _ = (frontOutline text before).nodes.length at same
  change _ = (frontOutline text before).path at path
  change _ = (frontOutline text before).owed at owed
  have size := same.trans number.symm
  have lasting : Lasting (asciiLower "ul") := ⟨by decide,by decide⟩
  have lower : asciiLower (listOpening node.start).name = "ul" := (by decide : asciiLower "ul" = "ul")
  obtain ⟨list,item,one,two,first,second⟩ := Outline.getElem?_nested (byteLength result) (LexPhase.run .text 0 before).1
    (lexFrom (LexPhase.afterOpening (String.ofList name) slash) (node.openStop + 4)
      (body ++ ("</ul>".toList ++ after))) (listOpening node.start) ((node.openingTag name slash).shift (· + 4))
    slash rfl rfl lasting rfl
  rw [← lexed,← outlineNodes,size] at one two
  rw [lower,path,owed] at first
  rw [size,path,owed] at second
  have label : asciiLower ((node.openingTag name slash).shift (· + 4)).name = node.name := pieces.written.named.symm
  rw [label] at second
  exact ⟨list,item,one,two,first,second⟩

end Markup

end AccessibleMarkup
