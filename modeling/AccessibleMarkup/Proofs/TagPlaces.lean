import AccessibleMarkup.Proofs.OpeningTags

/-! Where tags stand in a text and where elements end. Every tag starts with a bracket and goes up to
another one or to the end of the text, and a closing tag is written with a slash and its name. An element
ends with a closing tag of its own name, before another tag, with its opening tag or with the text. -/
namespace AccessibleMarkup.Markup

open Text

def OpensAt (read : List Char) (start : Nat) (inner : List Char) : Prop :=
  ∃ before, read = before ++ '<' :: inner ∧ byteLength before = start

theorem OpensAt.snoc {read inner : List Char} {start : Nat} (opens : OpensAt read start inner)
    (c : Char) : OpensAt (read ++ [c]) start (inner ++ [c]) := by
  obtain ⟨before,rfl,place⟩ := opens
  exact ⟨before,by simp,place⟩

/-- The part of a closing tag after its bracket: a slash, the name, and what does not belong to it. -/
structure ClosingInner (inner name rest : List Char) : Prop where
  parts : inner = '/' :: (name ++ rest)
  written : ∀ c ∈ name, isNameChar c = true
  named : ∀ c, rest.head? = some c → isNameChar c = false

theorem ClosingInner.snoc {inner name rest : List Char} (closing : ClosingInner inner name rest)
    (started : rest ≠ []) (c : Char) : ClosingInner (inner ++ [c]) name (rest ++ [c]) := by
  refine ⟨by simp [closing.parts],closing.written,fun d head => closing.named d ?_⟩
  cases rest with
  | nil => contradiction
  | cons first rest => exact head

theorem ClosingInner.leave {inner name : List Char} (closing : ClosingInner inner name []) (c : Char)
    (other : isNameChar c = false) : ClosingInner (inner ++ [c]) name [c] := by
  refine ⟨by simp [closing.parts],closing.written,?_⟩
  rintro d ⟨rfl⟩
  exact other

/-- A tag that ends with the characters read. -/
structure Tag.EndsWith (tag : Tag) (read : List Char) : Prop where
  opens : ∃ inner, OpensAt read tag.start inner
  stop : tag.stop = byteLength read
  bracket : tag.terminated = true → ∃ front, read = front ++ ['>']
  closing : tag.kind = .closing → ∃ inner name rest, OpensAt read tag.start inner ∧
    ClosingInner inner name rest ∧ tag.name = String.ofList name ∧ (rest = [] → tag.terminated = false)

namespace LexPhase

def Follows (read : List Char) : LexPhase → Prop
  | .text => True
  | .raw _ => True
  | .bracket start => OpensAt read start []
  | .rawBracket _ start => OpensAt read start []
  | .bracketSlash start => OpensAt read start ['/']
  | .openingName start _ => ∃ inner, OpensAt read start inner
  | .openingInterior start _ _ => ∃ inner, OpensAt read start inner
  | .markup start _ => ∃ inner, OpensAt read start inner
  | .closingName start name =>
    ∃ inner, OpensAt read start inner ∧ ClosingInner inner name.reverse []
  | .rawName _ start name =>
    ∃ inner, OpensAt read start inner ∧ ClosingInner inner name.reverse []
  | .closingInterior start name =>
    ∃ inner chars rest, OpensAt read start inner ∧ ClosingInner inner chars rest ∧
      name = String.ofList chars ∧ rest ≠ []

theorem follows_afterOpening (name : String) (selfClosing : Bool) (read : List Char) :
    (afterOpening name selfClosing).Follows read := by
  unfold afterOpening
  split
  · trivial
  · split <;> trivial

theorem endsWith_opening (read inner : List Char) (start : Nat) (name : String) (selfClosing : Bool)
    (opens : OpensAt read start inner) :
    Tag.EndsWith ⟨.opening selfClosing,name,start,byteLength read + 1,true⟩ (read ++ ['>']) :=
  ⟨⟨_,opens.snoc '>'⟩,by rw [byteLength_append]; rfl,fun _ => ⟨read,rfl⟩,by simp⟩

theorem endsWith_closing (read inner name rest : List Char) (start : Nat)
    (opens : OpensAt (read ++ ['>']) start inner) (closing : ClosingInner inner name rest)
    (started : rest ≠ []) :
    Tag.EndsWith ⟨.closing,String.ofList name,start,byteLength read + 1,true⟩ (read ++ ['>']) :=
  ⟨⟨_,opens⟩,by rw [byteLength_append]; rfl,fun _ => ⟨read,rfl⟩,
    fun _ => ⟨inner,name,rest,opens,closing,rfl,fun empty => absurd empty started⟩⟩

theorem follows_name (read inner name : List Char) (start : Nat) (c : Char)
    (opens : OpensAt read start inner) (closing : ClosingInner inner name.reverse [])
    (more : isNameChar c = true) :
    ∃ inner, OpensAt (read ++ [c]) start inner ∧ ClosingInner inner (c :: name).reverse [] := by
  refine ⟨_,opens.snoc c,by simp [closing.parts],fun d member => ?_,by simp⟩
  rw [List.reverse_cons,List.mem_append,List.mem_singleton] at member
  rcases member with before | rfl
  · exact closing.written d before
  · exact more

variable {read : List Char} {c : Char} {phase next : LexPhase} {given : Option Tag} {tag : Tag} {start : Nat}
  {name : String}

theorem Follows.inOpening (follows : phase.Follows read) {interior : TagInterior}
    (inside : InOpening c start phase name interior) : ∃ inner, OpensAt read start inner := by
  cases inside <;> exact follows

theorem Follows.inClosing (follows : phase.Follows read) (inside : InClosing c start phase name) :
    ∃ inner chars rest, OpensAt (read ++ [c]) start inner ∧ ClosingInner inner chars rest ∧
      name = String.ofList chars ∧ rest ≠ [] := by
  cases inside with
  | name chars other | rawName element chars other =>
    obtain ⟨inner,opens,closing⟩ := follows
    exact ⟨_,_,_,opens.snoc c,closing.leave c other,rfl,by simp⟩
  | interior =>
    obtain ⟨inner,chars,rest,opens,closing,rfl,started⟩ := follows
    exact ⟨_,_,_,opens.snoc c,closing.snoc started c,rfl,by simp⟩

theorem Turn.follows (turn : Turn (byteLength read) c phase next given) (follows : phase.Follows read) :
    next.Follows (read ++ [c]) := by
  cases turn with
  | text | raw | closingEnd | markupEnd => trivial
  | bracket _ bracket | rawBracket _ bracket => exact ⟨read,by rw [bracket],rfl⟩
  | openingStart | bang | question => exact ⟨_,OpensAt.snoc follows c⟩
  | openingName | markup =>
    obtain ⟨inner,opens⟩ := follows
    exact ⟨_,opens.snoc c⟩
  | openingInterior inside =>
    obtain ⟨inner,opens⟩ := follows.inOpening inside
    exact ⟨_,opens.snoc c⟩
  | openingEnd => exact follows_afterOpening _ _ _
  | slash start slash =>
    subst slash
    exact OpensAt.snoc follows '/'
  | closingStart start letter =>
    refine ⟨_,OpensAt.snoc follows c,rfl,fun d member => ?_,by simp⟩
    obtain rfl := List.mem_singleton.mp member
    exact isNameChar_of_isAlpha letter
  | closingName start chars named | rawName element start chars named =>
    obtain ⟨inner,opens,closing⟩ := follows
    exact follows_name read inner chars start c opens closing named
  | closingInterior inside => exact follows.inClosing inside
  | rawSlash element start slash =>
    subst slash
    exact ⟨_,OpensAt.snoc follows '/',rfl,by simp,by simp⟩

theorem Turn.endsWith (turn : Turn (byteLength read) c phase next (some tag)) (follows : phase.Follows read) :
    tag.EndsWith (read ++ [c]) := by
  obtain ⟨rfl,_⟩ := turn.ends
  cases turn with
  | openingEnd inside =>
    obtain ⟨inner,opens⟩ := follows.inOpening inside
    exact endsWith_opening read inner _ _ _ opens
  | closingEnd inside =>
    obtain ⟨inner,chars,rest,opens,closing,rfl,started⟩ := follows.inClosing inside
    exact endsWith_closing read inner chars rest _ opens closing started
  | markupEnd =>
    obtain ⟨inner,opens⟩ := follows
    exact ⟨⟨_,opens.snoc '>'⟩,by rw [byteLength_append]; rfl,fun _ => ⟨read,rfl⟩,by simp⟩

/-- The tag that the end of the text cuts off goes up to it. -/
theorem Follows.finish {phase : LexPhase} {read : List Char} (follows : phase.Follows read) (tag : Tag)
    (found : phase.finish (byteLength read) = some tag) :
    tag.EndsWith read ∧ tag.terminated = false := by
  have cut (start : Nat) (kind : TagKind) (name : String) (other : kind ≠ .closing)
      (opens : ∃ inner, OpensAt read start inner) :
      Tag.EndsWith ⟨kind,name,start,byteLength read,false⟩ read :=
    ⟨opens,rfl,by simp,fun same => absurd same other⟩
  have closed (start : Nat) (inner name rest : List Char) (opens : OpensAt read start inner)
      (closing : ClosingInner inner name rest) :
      Tag.EndsWith ⟨.closing,String.ofList name,start,byteLength read,false⟩ read :=
    ⟨⟨_,opens⟩,rfl,by simp,fun _ => ⟨inner,name,rest,opens,closing,rfl,fun _ => rfl⟩⟩
  cases phase with
  | openingName start name =>
    obtain rfl := Option.some.inj found
    exact ⟨cut _ _ _ (by simp) follows,rfl⟩
  | openingInterior start name interior =>
    obtain rfl := Option.some.inj found
    exact ⟨cut _ _ _ (by simp) follows,rfl⟩
  | markup start interior =>
    obtain rfl := Option.some.inj found
    exact ⟨cut _ _ _ (by simp) follows,rfl⟩
  | closingName start name =>
    obtain rfl := Option.some.inj found
    obtain ⟨inner,opens,closing⟩ := follows
    exact ⟨closed _ _ _ _ opens closing,rfl⟩
  | closingInterior start name =>
    obtain rfl := Option.some.inj found
    obtain ⟨inner,chars,rest,opens,closing,rfl,_⟩ := follows
    exact ⟨closed _ _ _ _ opens closing,rfl⟩
  | rawName element start name =>
    obtain ⟨inner,opens,closing⟩ := follows
    simp only [LexPhase.finish] at found
    split_ifs at found
    obtain rfl := Option.some.inj found
    exact ⟨closed _ _ _ _ opens closing,rfl⟩
  | _ => simp [LexPhase.finish] at found

end LexPhase

/-- The characters up to the end of a tag, which a bracket or the end of the text gives. -/
structure Tag.StandsIn (tag : Tag) (text : List Char) (read after : List Char) : Prop where
  parts : text = read ++ after
  ends : tag.EndsWith read
  cut : tag.terminated = false → after = []

theorem lexFrom_standsIn (phase : LexPhase) (read text : List Char) (follows : phase.Follows read)
    (tag : Tag) (member : tag ∈ lexFrom phase (byteLength read) text) :
    ∃ front after, tag.StandsIn (read ++ text) front after := by
  induction text generalizing phase read with
  | nil =>
    rw [lexFrom,Option.mem_toList] at member
    obtain ⟨ends,cut⟩ := follows.finish tag member
    exact ⟨read,[],by simp,ends,fun _ => rfl⟩
  | cons c rest ih =>
    have turn := phase.step_turn (byteLength read) c
    have size : byteLength read + c.utf8Size = byteLength (read ++ [c]) := by simp
    have whole : read ++ c :: rest = (read ++ [c]) ++ rest := by simp
    rw [lexFrom_cons,size] at member
    rw [whole]
    rcases List.mem_append.mp member with now | further
    · rw [Option.mem_toList.mp now] at turn
      obtain ⟨_,_,_,_,terminated⟩ := turn.ends
      exact ⟨_,rest,rfl,turn.endsWith follows,by simp [terminated]⟩
    · exact ih _ _ (turn.follows follows) further

theorem lex_standsIn (text : List Char) (tag : Tag) (member : tag ∈ lex text) :
    ∃ front after, tag.StandsIn text front after :=
  lexFrom_standsIn .text [] text trivial tag member

/-- How an element ends in a text of the given length with the given tags. An element whose closing tag may be left
out ends before a tag. -/
inductive Node.EndsBy (length : Nat) (tags : List Tag) (node : Node) : Prop
  | closing (tag : Tag) (member : tag ∈ tags) (kind : tag.kind = .closing)
      (named : asciiLower tag.name = node.name) (closeStart : node.closeStart = tag.start)
      (stop : node.stop = tag.stop) (own : node.extent ≠ .implied)
  | before (tag : Tag) (member : tag ∈ tags) (open_ : node.extent ≠ .closed)
      (closeStart : node.closeStart = node.stop) (stop : node.stop = tag.start)
  | opening (open_ : node.extent ≠ .closed) (closeStart : node.closeStart = node.stop)
      (stop : node.stop = node.openStop) (own : node.extent ≠ .implied)
  | atEnd (open_ : node.extent ≠ .closed) (closeStart : node.closeStart = node.stop)
      (stop : node.stop = length) (own : node.extent ≠ .implied)

namespace Outline

/-- What the pass over the tags keeps: each element ends by one of them, and the path names its
elements. -/
structure EndsBy (length : Nat) (tags : List Tag) (outline : Outline) : Prop where
  ends : ∀ node ∈ outline.nodes, node.EndsBy length tags
  named : ∀ entry ∈ outline.path, (outline.nodes.map (·.name))[entry.index]? = some entry.name

variable {length : Nat} {tags : List Tag}

theorem mem_modify_some {nodes : List Node} {k : Nat} {change : Node → Node} {node : Node}
    (member : node ∈ nodes.modify k change) :
    ∃ i before, nodes[i]? = some before ∧ node = if k = i then change before else before := by
  obtain ⟨i,found⟩ := List.mem_iff_getElem?.mp member
  obtain ⟨before,present,same⟩ := getElem?_modify_some found
  exact ⟨i,before,present,same⟩

theorem endsBy_endAll (nodes : List Node) (ended : List OpenNode) (tag : Tag) (member : tag ∈ tags)
    (extent : OpenNode → Extent) (open_ : ∀ entry, extent entry ≠ .closed)
    (ends : ∀ node ∈ nodes, node.EndsBy length tags) :
    ∀ node ∈ endAll nodes ended tag.start extent, node.EndsBy length tags := by
  unfold endAll
  induction ended generalizing nodes with
  | nil => exact ends
  | cons entry rest ih =>
    apply ih
    intro node found
    obtain ⟨i,before,present,rfl⟩ := mem_modify_some found
    split_ifs
    · exact .before tag member (open_ entry) rfl rfl
    · exact ends before (List.mem_of_getElem? present)

theorem map_name_endAll (nodes : List Node) (ended : List OpenNode) (offset : Nat)
    (extent : OpenNode → Extent) :
    (endAll nodes ended offset extent).map (·.name) = nodes.map (·.name) :=
  map_endAll (·.name) nodes ended offset extent fun _ _ _ => rfl

theorem EndsBy.endInner {outline : Outline} (kept : outline.EndsBy length tags) (tag : Tag)
    (member : tag ∈ tags) (inner outer : List OpenNode) (path : outline.path = inner ++ outer)
    (extent : OpenNode → Extent) (open_ : ∀ entry, extent entry ≠ .closed) (owed : List String) :
    EndsBy length tags ⟨endAll outline.nodes inner tag.start extent,outer,owed⟩ := by
  refine ⟨endsBy_endAll _ _ tag member extent open_ kept.ends,fun entry inside => ?_⟩
  rw [map_name_endAll]
  exact kept.named entry (by rw [path]; exact List.mem_append_right _ inside)

theorem EndsBy.sibling {outline next : Outline} (kept : outline.EndsBy length tags) {tag : Tag}
    (member : tag ∈ tags) {name : String} (sibling : outline.SiblingStep name tag.start next) :
    next.EndsBy length tags := by
  cases sibling with
  | stays => exact kept
  | ends top outer path =>
    exact kept.endInner tag member [top] outer path (fun _ => .implied) (by simp) outline.owed

theorem openingExtent_ne (tag : Tag) (selfClosing : Bool) (name : String) :
    openingExtent tag selfClosing name ≠ .closed ∧ openingExtent tag selfClosing name ≠ .implied := by
  unfold openingExtent
  split_ifs <;> simp

theorem EndsBy.enter {outline : Outline} (kept : outline.EndsBy length tags) (tag : Tag) (selfClosing : Bool) :
    (outline.enter length tag selfClosing).EndsBy length tags := by
  obtain ⟨extent,own⟩ := openingExtent_ne tag selfClosing (asciiLower tag.name)
  have earlier (entry : OpenNode) (inside : entry ∈ outline.path) (last : Node) :
      ((outline.nodes ++ [last]).map (·.name))[entry.index]? = some entry.name := by
    have found := kept.named entry inside
    rw [List.map_append,List.getElem?_append_left (List.getElem?_eq_some_iff.mp found).1]
    exact found
  refine ⟨fun node found => ?_,fun entry inside => ?_⟩
  · rcases List.mem_append.mp found with old | new
    · exact kept.ends node old
    · obtain rfl := List.mem_singleton.mp new
      by_cases open_ : openingExtent tag selfClosing (asciiLower tag.name) = .unterminated
      · exact .atEnd extent rfl (if_pos open_) own
      · exact .opening extent rfl (if_neg open_) own
  · simp only [Outline.enter] at inside ⊢
    split_ifs at inside
    · rcases List.mem_cons.mp inside with rfl | old
      · simp
      · exact earlier entry old _
    · exact earlier entry inside _

theorem EndsBy.closing {outline next : Outline} (kept : outline.EndsBy length tags) {tag : Tag}
    (member : tag ∈ tags) (kind : tag.kind = .closing) (closing : outline.ClosingStep tag next) :
    next.EndsBy length tags := by
  have left (entry : OpenNode) : innerExtent entry ≠ .closed := by
    unfold innerExtent
    split_ifs <;> simp
  cases closing with
  | closes inner closed outer path named =>
    have ended := kept.endInner tag member _ _ path innerExtent left outline.owed
    refine ⟨fun node changed => ?_,fun entry inside => ?_⟩
    · obtain ⟨i,before,present,rfl⟩ := mem_modify_some changed
      split_ifs with here
      · have name := ended.named closed List.mem_cons_self
        rw [List.getElem?_map,here,present] at name
        exact .closing tag member kind (named.symm.trans (Option.some.inj name).symm) rfl rfl Extent.noConfusion
      · exact ended.ends before (List.mem_of_getElem? present)
    · dsimp only
      rw [map_modify Node.name _ _ (Node.closeWith · tag) fun _ => rfl]
      exact ended.named entry (List.mem_cons_of_mem _ inside)
  | pays => exact ⟨kept.ends,kept.named⟩
  | strays => exact kept.endInner tag member _ [] (List.append_nil _).symm (fun _ => .crossed) (by simp) _

theorem EndsBy.step {outline next : Outline} (kept : outline.EndsBy length tags) {tag : Tag}
    (member : tag ∈ tags) (step : Step length outline tag next) : next.EndsBy length tags := by
  cases step with
  | opening selfClosing _ before sibling => exact (kept.sibling member sibling).enter tag selfClosing
  | closing kind next closing => exact kept.closing member kind closing
  | markup => exact kept

theorem EndsBy.readAll {outline : Outline} (kept : outline.EndsBy length tags) (some : List Tag)
    (members : ∀ tag ∈ some, tag ∈ tags) : (some.foldl (Outline.read length) outline).EndsBy length tags := by
  induction some generalizing outline with
  | nil => exact kept
  | cons tag rest ih =>
    exact ih (kept.step (members tag List.mem_cons_self) (outline.step tag length)) fun other member =>
      members other (List.mem_cons_of_mem _ member)

end Outline

/-- Every element of a text ends by one of its tags, or with the text. -/
theorem outlineNodes_endsBy (text : List Char) (node : Node) (member : node ∈ outlineNodes text) :
    node.EndsBy (byteLength text) (lex text) := by
  have start : Outline.EndsBy (byteLength text) (lex text) {} := ⟨by simp,by simp⟩
  exact (start.readAll (lex text) fun _ => id).ends node member

end AccessibleMarkup.Markup
