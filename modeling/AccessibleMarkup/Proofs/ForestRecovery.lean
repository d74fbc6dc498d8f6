import AccessibleMarkup.Proofs.MarkupTrees
import AccessibleMarkup.Proofs.OutlineReadings
import Mathlib.Data.List.Forall2

/-! The elements of well-formed markup are the elements of the forest it was made from, in document order
and at their places. The pass over the tags of a forest adds the elements of the forest to the outline and
leaves the path of open elements as it was. -/
namespace AccessibleMarkup.Markup

open Text

/-- The position is the one that the pass over the tags has reached. -/
structure Position.Fits (position : Position) (outline : Outline) : Prop where
  index : outline.nodes.length = position.index
  parent : outline.path.head?.map (·.index) = position.parent
  depth : outline.path.length = position.depth
  settled : outline.owed = []

def Outline.Spares (outline : Outline) (names : List String) : Prop :=
  ∀ top, outline.path.head? = some top → isSelfEnding top.name = true → top.name ∉ names

namespace Outline

variable {outline : Outline} {position : Position}

theorem Spares.endSibling {names : List String} (spares : outline.Spares names) (name : String)
    (member : name ∈ names) (offset : Nat) : outline.endSibling name offset = outline :=
  endSibling_stays outline (fun top first loose same => spares top first (same ▸ loose) (same ▸ member)) offset

theorem Spares.tail {name : String} {names : List String} (spares : outline.Spares (name :: names)) :
    outline.Spares names := fun top first ending member =>
  spares top first ending (List.mem_cons_of_mem _ member)

theorem read_openingAt (fits : position.Fits outline) (length : Nat) (tag : QuotedTag)
    (spared : outline.endSibling tag.elementName position.offset = outline) (extent : Extent)
    (ends : openingExtent (tag.openingAt position.offset) tag.slash tag.elementName = extent)
    (stop : Nat)
    (stops : (if extent = .unterminated then length else position.offset + byteLength tag.render) = stop) :
    outline.read length (tag.openingAt position.offset) =
      { outline with
        nodes := outline.nodes ++ [{
          name := tag.elementName, start := position.offset
          openStop := position.offset + byteLength tag.render, closeStart := stop, stop, extent
          parent := position.parent, depth := position.depth, detached := false }]
        path := if hasContent (tag.openingAt position.offset) tag.slash tag.elementName then
            ⟨position.index,tag.elementName⟩ :: outline.path
          else outline.path } := by
  have kind : (tag.openingAt position.offset).kind = .opening tag.slash := rfl
  rw [read_of_opening kind]
  change (outline.endSibling tag.elementName position.offset).enter length _ _ = _
  have settled : (!outline.owed.isEmpty) = false := by rw [fits.settled]; rfl
  subst ends stops
  rw [spared,← fits.parent,← fits.depth,← fits.index,enter,settled]
  rfl

theorem read_lone (fits : position.Fits outline) (length : Nat) (tag : QuotedTag)
    (spared : outline.endSibling tag.elementName position.offset = outline)
    (kind : tag.slash = true ∨ isVoid tag.elementName = true) :
    outline.read length (tag.openingAt position.offset) =
      { outline with nodes := outline.nodes ++ [position.lone tag] } := by
  have extent : openingExtent (tag.openingAt position.offset) tag.slash tag.elementName =
      if tag.slash then .selfClosed else .void := by
    unfold openingExtent QuotedTag.openingAt
    rcases kind with slash | void
    · simp [slash]
    · cases tag.slash <;> simp [void]
  have content : hasContent (tag.openingAt position.offset) tag.slash tag.elementName = false := by
    unfold hasContent
    rcases kind with slash | void
    · simp [slash]
    · simp [void]
  have ended : ¬ (if tag.slash then Extent.selfClosed else .void) = .unterminated := by
    split_ifs <;> simp
  rw [read_openingAt fits length tag spared _ extent _ (if_neg ended),content]
  rfl

theorem read_content (fits : position.Fits outline) (length : Nat) (tag : QuotedTag)
    (spared : outline.endSibling tag.elementName position.offset = outline)
    (open_ : tag.slash = false) (content : isVoid tag.elementName = false) :
    ∃ node, outline.read length (tag.openingAt position.offset) =
        { outline with
          nodes := outline.nodes ++ [node]
          path := ⟨position.index,tag.elementName⟩ :: outline.path } ∧
      ∀ chars, node.closeWith
        (tag.closingAt (position.offset + byteLength tag.render + byteLength chars)) =
          position.closed tag chars := by
  have extent : openingExtent (tag.openingAt position.offset) tag.slash tag.elementName =
      .unterminated := by
    simp [openingExtent,QuotedTag.openingAt,open_,content]
  have inside : hasContent (tag.openingAt position.offset) tag.slash tag.elementName = true := by
    simp [hasContent,QuotedTag.openingAt,open_,content]
  have read := read_openingAt fits length tag spared _ extent _ (if_pos rfl)
  rw [inside,if_pos rfl] at read
  exact ⟨_,read,fun chars => rfl⟩

theorem read_closingAt (front inner : List Node) (node : Node) (path : List OpenNode) (owed : List String)
    (length offset : Nat) (tag : QuotedTag) :
    read length ⟨front ++ node :: inner,⟨front.length,tag.elementName⟩ :: path,owed⟩ (tag.closingAt offset) =
      ⟨front ++ node.closeWith (tag.closingAt offset) :: inner,path,owed⟩ := by
  have kind : (tag.closingAt offset).kind = .closing := rfl
  have name : asciiLower (tag.closingAt offset).name = tag.elementName := rfl
  rw [read_of_closing kind,readClosing_found _ _ [] path _ rfl name.symm (by simp [Avoids])]
  simp only [endAll,List.foldl_nil,cutOff,List.filter_nil,List.map_nil,List.nil_append,modify_middle]

end Outline

theorem MarkupForest.length_entries (forest : MarkupForest) (position : Position) :
    (forest.entries position).length = forest.size := by
  induction forest generalizing position with
  | nil => rfl
  | text chars plain others ih => exact ih _
  | comment chars inside others ih => exact ih _
  | lone tag kind others ih => rw [entries,List.length_cons,ih,size]
  | raw element tag chars open_ kind inside others ih => rw [entries,List.length_cons,ih,size]
  | element tag children open_ content cooked others inner ih =>
    rw [entries,List.length_cons,List.length_append,inner,ih,size]

theorem isVoid_raw (element : RawElement) : isVoid element.name = false := by
  cases element <;> decide

theorem MarkupForest.readAll_tags (forest : MarkupForest) (apart : forest.keepsApart = true)
    (length : Nat) (outline : Outline) (position : Position) (fits : position.Fits outline)
    (spares : outline.Spares forest.roots) :
    (forest.tags position.offset).foldl (Outline.read length) outline =
      { outline with nodes := outline.nodes ++ (forest.entries position).map (·.1) } := by
  -- Along the forest: a tree adds its own entry and those of its children, and leaves the path as it was.
  induction forest generalizing outline position with
  | nil => simp [tags,entries]
  | text chars plain others ih =>
    exact ih apart outline (position.after chars 0) ⟨fits.index,fits.parent,fits.depth,fits.settled⟩ spares
  | comment chars inside others ih =>
    exact ih apart outline (position.after _ 0) ⟨fits.index,fits.parent,fits.depth,fits.settled⟩ spares
  | lone tag kind others ih =>
    have spared := spares.endSibling tag.elementName List.mem_cons_self position.offset
    have read := Outline.read_lone fits length tag spared kind
    have next := ih apart { outline with nodes := outline.nodes ++ [position.lone tag] }
      (position.after tag.render 1) ⟨by simp [fits.index,Position.after],fits.parent,fits.depth,fits.settled⟩
      spares.tail
    rw [tags,List.foldl_cons,read]
    refine next.trans ?_
    simp [entries]
  | raw element tag chars open_ kind inside others ih =>
    have spared := spares.endSibling tag.elementName List.mem_cons_self position.offset
    obtain ⟨node,read,closed⟩ := Outline.read_content fits length tag spared open_
      (by rw [kind,isVoid_raw])
    have ended := Outline.read_closingAt outline.nodes [] node outline.path outline.owed length
      (position.offset + byteLength tag.render + byteLength chars) tag
    have next := ih apart ⟨outline.nodes ++ [position.closed tag chars],outline.path,outline.owed⟩
      (position.after (tag.render ++ (chars ++ tag.closing)) 1)
      ⟨by simp [fits.index,Position.after],fits.parent,fits.depth,fits.settled⟩ spares.tail
    rw [closed,fits.index] at ended
    rw [tags,List.foldl_cons,read,List.foldl_cons,ended]
    simp only [Position.after,byteLength_append,← Nat.add_assoc] at next
    rw [next]
    simp [entries,Position.after,Nat.add_assoc]
  | element tag children open_ content cooked others inner ih =>
    rw [keepsApart,Bool.and_eq_true,Bool.and_eq_true] at apart
    obtain ⟨⟨different,below⟩,beside⟩ := apart
    have spared := spares.endSibling tag.elementName List.mem_cons_self position.offset
    obtain ⟨node,read,closed⟩ := Outline.read_content fits length tag spared open_ content
    have middle := inner below
      ⟨outline.nodes ++ [node],⟨position.index,tag.elementName⟩ :: outline.path,outline.owed⟩
      (position.within tag)
      ⟨by simp [fits.index,Position.within],rfl,by simp [fits.depth,Position.within],fits.settled⟩ (by
        rintro top ⟨rfl⟩ ending member
        rw [Bool.not_eq_true',Bool.and_eq_false_iff] at different
        rcases different with other | absent
        · rw [other] at ending
          contradiction
        · rw [List.contains_iff_mem.mpr member] at absent
          contradiction)
    have ended := Outline.read_closingAt outline.nodes ((children.entries (position.within tag)).map (·.1))
      node outline.path outline.owed length
      (position.offset + byteLength tag.render + byteLength children.render) tag
    have next := ih beside
      ⟨outline.nodes ++ position.closed tag children.render ::
        (children.entries (position.within tag)).map (·.1),outline.path,outline.owed⟩
      (position.after (tag.render ++ (children.render ++ tag.closing)) (children.size + 1))
      ⟨by simp [fits.index,Position.after,children.length_entries],fits.parent,fits.depth,fits.settled⟩
      spares.tail
    rw [closed,fits.index] at ended
    have place : (position.within tag).offset = position.offset + byteLength tag.render := rfl
    rw [place,List.append_assoc,List.singleton_append] at middle
    rw [tags,List.foldl_cons,read,List.foldl_append,List.foldl_cons,middle,ended]
    simp only [Position.after,byteLength_append,← Nat.add_assoc] at next
    rw [next]
    simp [entries,Position.after,Nat.add_assoc]

theorem MarkupForest.entry_place (forest : MarkupForest) (position : Position) (before after : List Char)
    (place : byteLength before = position.offset) (entry : Node × QuotedTag)
    (member : entry ∈ forest.entries position) :
    ∃ front back, before ++ (forest.render ++ after) = front ++ (entry.2.render ++ back) ∧
      byteLength front = entry.1.start ∧ entry.1.openStop = entry.1.start + byteLength entry.2.render := by
  induction forest generalizing position before after with
  | nil => contradiction
  | text chars plain others ih =>
    obtain ⟨front,back,same,rest⟩ := ih (position.after chars 0) (before ++ chars) after
      (by simp [Position.after,place]) member
    exact ⟨front,back,by rw [← same]; simp [render],rest⟩
  | comment chars inside others ih =>
    obtain ⟨front,back,same,rest⟩ := ih (position.after _ 0)
      (before ++ '<' :: '!' :: '-' :: '-' :: (chars ++ ['-','-','>'])) after
      (by simp [Position.after,place]) member
    exact ⟨front,back,by rw [← same]; simp [render],rest⟩
  | lone tag kind others ih =>
    rcases List.mem_cons.mp member with rfl | later
    · exact ⟨before,others.render ++ after,by simp [render],place,rfl⟩
    · obtain ⟨front,back,same,rest⟩ := ih (position.after tag.render 1) (before ++ tag.render) after
        (by simp [Position.after,place]) later
      exact ⟨front,back,by rw [← same]; simp [render],rest⟩
  | raw element tag chars open_ kind inside others ih =>
    rcases List.mem_cons.mp member with rfl | later
    · exact ⟨before,chars ++ (tag.closing ++ (others.render ++ after)),by simp [render],place,rfl⟩
    · obtain ⟨front,back,same,rest⟩ := ih (position.after _ 1)
        (before ++ (tag.render ++ (chars ++ tag.closing))) after (by simp [Position.after,place]) later
      exact ⟨front,back,by rw [← same]; simp [render],rest⟩
  | element tag children open_ content cooked others inner ih =>
    rcases List.mem_cons.mp member with rfl | later
    · exact ⟨before,children.render ++ (tag.closing ++ (others.render ++ after)),by simp [render],place,rfl⟩
    · rcases List.mem_append.mp later with below | beside
      · obtain ⟨front,back,same,rest⟩ := inner (position.within tag) (before ++ tag.render)
          (tag.closing ++ (others.render ++ after)) (by simp [Position.within,place]) below
        exact ⟨front,back,by rw [← same]; simp [render],rest⟩
      · obtain ⟨front,back,same,rest⟩ := ih (position.after _ (children.size + 1))
          (before ++ (tag.render ++ (children.render ++ tag.closing))) after
          (by simp [Position.after,place]) beside
        exact ⟨front,back,by rw [← same]; simp [render],rest⟩

namespace QuotedAttribute

def regular (attr : QuotedAttribute) (spaced : ∀ c ∈ attr.space, isMarkupSpace c = true) : RegularAttribute where
  space := attr.space
  name := attr.name
  value := .quoted .tight attr.mark attr.value attr.quote attr.inside
  separated := attr.separated
  blank := spaced
  nonempty := attr.nonempty
  written := attr.written

theorem flatMap_regular (attributes : List QuotedAttribute)
    (spaced : ∀ attr ∈ attributes, ∀ c ∈ attr.space, isMarkupSpace c = true) :
    (attributes.pmap regular spaced).flatMap (·.render) = attributes.flatMap (·.render) := by
  induction attributes with
  | nil => rfl
  | cons attr rest ih =>
    rw [List.pmap_cons,List.flatMap_cons,List.flatMap_cons,ih]
    rfl

theorem placeAll_regular (attributes : List QuotedAttribute) (offset : Nat)
    (spaced : ∀ attr ∈ attributes, ∀ c ∈ attr.space, isMarkupSpace c = true) :
    RegularAttribute.placeAll (attributes.pmap regular spaced) offset = placeAll attributes offset := by
  induction attributes generalizing offset with
  | nil => rfl
  | cons attr rest ih =>
    have here : (attr.regular (spaced attr List.mem_cons_self)).place offset = attr.place offset := by
      simp [RegularAttribute.place,regular,RegularAttribute.label,place,WrittenName.withValue,EqualsSign.render,
        EqualsSign.tight,Nat.add_assoc]
    rw [List.pmap_cons,RegularAttribute.placeAll,placeAll,here,ih]
    rfl

end QuotedAttribute

namespace QuotedTag

def regular (tag : QuotedTag) (spaced : tag.IsSpaced) : RegularTag where
  name := tag.name
  attributes := tag.attributes.pmap QuotedAttribute.regular spaced.1
  space := tag.space
  slash := tag.slash
  letter := tag.letter
  written := tag.written
  blank := spaced.2
  ended _ attr member unquoted := by
    obtain ⟨quoted,present,rfl⟩ := List.mem_pmap.mp member
    contradiction

theorem regular_render (tag : QuotedTag) (spaced : tag.IsSpaced) : (tag.regular spaced).render = tag.render := by
  rw [RegularTag.render,RegularTag.inner,RegularTag.body,regular,QuotedAttribute.flatMap_regular]
  rfl

theorem readAttributes_render (tag : QuotedTag) (spaced : tag.IsSpaced) (base : Nat) :
    readAttributes tag.render base = tag.attributesAt base := by
  rw [← tag.regular_render spaced,RegularTag.readAttributes_render]
  exact QuotedAttribute.placeAll_regular _ _ _

end QuotedTag

def Position.origin : Position := ⟨0,0,none,0⟩

/-- The elements of well-formed markup are those of its forest in document order: names in lower case,
parents, depths, ends and all offsets are as written, and so are the attributes where white space of
the kind that separates attributes stands before them. -/
theorem elements_render (forest : MarkupForest) (apart : forest.keepsApart = true) :
    List.Forall₂ (fun element entry => element.toNode = entry.1 ∧
        (entry.2.IsSpaced → element.attributes = entry.2.attributesAt entry.1.start))
      (elements forest.render) (forest.entries .origin) := by
  have nodes : outlineNodes forest.render = (forest.entries .origin).map (·.1) := by
    have read := forest.readAll_tags apart (byteLength forest.render) {} .origin ⟨rfl,rfl,rfl,rfl⟩
      (by simp [Outline.Spares])
    rw [outlineNodes,Outline.ofTags,forest.lex_render]
    exact congrArg Outline.nodes read
  rw [elements,nodes,List.map_map,List.forall₂_map_left_iff]
  apply List.forall₂_same.mpr
  intro entry member
  refine ⟨rfl,fun spaced => ?_⟩
  obtain ⟨front,back,parts,start,stop⟩ := forest.entry_place .origin [] [] rfl entry member
  rw [List.nil_append,List.append_nil] at parts
  have slice : slice? forest.render entry.1.start entry.1.openStop = some entry.2.render := by
    rw [parts,stop,← start]
    exact slice?_append front entry.2.render back
  simp only [Function.comp,Element.ofNode,slice]
  exact entry.2.readAttributes_render spaced entry.1.start

/-- A list with a comment, an item that holds a line break, and a script after it. -/
def MarkupForest.sample : MarkupForest :=
  let id : QuotedAttribute :=
    ⟨[' '],['i','d'],'\'',['a','>','b'],by simp,List.all_eq_true.mp rfl,by simp,
      by simp [endsName,isMarkupSpace],Or.inr rfl,by simp⟩
  .element ⟨['U','l'],[id],[],false,⟨'U',['l'],rfl,rfl⟩,List.all_eq_true.mp rfl,by simp⟩
    (.comment [' ','<','b','>',' '] (by decide)
      (.element ⟨['l','i'],[],[],false,⟨'l',['i'],rfl,rfl⟩,List.all_eq_true.mp rfl,by simp⟩
        (.text ['x'] (by simp)
          (.lone ⟨['b','r'],[],[' '],true,⟨'b',['r'],rfl,rfl⟩,List.all_eq_true.mp rfl,List.all_eq_true.mp rfl⟩
            (Or.inl rfl) .nil))
        rfl (by decide) (by decide) .nil))
    rfl (by decide) (by decide)
    (.raw .script ⟨['s','c','r','i','p','t'],[],[],false,⟨'s',['c','r','i','p','t'],rfl,rfl⟩,
        List.all_eq_true.mp rfl,by simp⟩
      ['a','<','b'] rfl (by decide) (by decide) .nil)

theorem elements_render_sample :
    MarkupForest.sample.keepsApart = true ∧
      MarkupForest.sample.render =
        "<Ul id='a>b'><!-- <b> --><li>x<br /></li></Ul><script>a<b</script>".toList ∧
      List.Forall₂ (fun element entry => element.toNode = entry.1 ∧
          (entry.2.IsSpaced → element.attributes = entry.2.attributesAt entry.1.start))
        (elements MarkupForest.sample.render) (MarkupForest.sample.entries .origin) :=
  ⟨by decide,by decide,elements_render MarkupForest.sample (by decide)⟩

end AccessibleMarkup.Markup
