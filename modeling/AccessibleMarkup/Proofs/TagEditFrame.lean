import AccessibleMarkup.Proofs.FixLocality
import AccessibleMarkup.Proofs.MarkupTrees
import AccessibleMarkup.Proofs.OutlineReadings

/-! What an edit inside an opening tag does to the outline of a text. As long as the lexer ends the tag
where it ended before, and in the same way, every element stays what it was and only offsets move. -/
namespace AccessibleMarkup

namespace Markup

open Text

namespace LexPhase

def shift (move : Nat → Nat) : LexPhase → LexPhase
  | .text => .text
  | .bracket start => .bracket (move start)
  | .bracketSlash start => .bracketSlash (move start)
  | .openingName start name => .openingName (move start) name
  | .openingInterior start name interior => .openingInterior (move start) name interior
  | .closingName start name => .closingName (move start) name
  | .closingInterior start name => .closingInterior (move start) name
  | .markup start interior => .markup (move start) interior
  | .raw element => .raw element
  | .rawBracket element start => .rawBracket element (move start)
  | .rawName element start name => .rawName element (move start) name

theorem shift_of_start?_none (move : Nat → Nat) (phase : LexPhase) (none : phase.start? = none) :
    phase.shift move = phase := by
  cases phase <;> first | rfl | contradiction

theorem shift_readText (move : Nat → Nat) (offset : Nat) (c : Char) :
    readText (move offset) c = (readText offset c).shift move := by
  unfold readText
  split_ifs <;> rfl

theorem shift_readRaw (move : Nat → Nat) (element : RawElement) (offset : Nat) (c : Char) :
    readRaw element (move offset) c = (readRaw element offset c).shift move := by
  unfold readRaw
  split_ifs <;> rfl

/-- Reading a character commutes with moving all offsets. -/
theorem shift_step (move : Nat → Nat) (phase : LexPhase) (offset : Nat) (c : Char)
    (translated : move (offset + 1) = move offset + 1) :
    (phase.shift move).step (move offset) c =
      ((phase.step offset c).1.shift move,(phase.step offset c).2.map (·.shift move)) := by
  have opening (start : Nat) (name : String) (selfClosing : Bool) :
      endOpening (move start) (move offset) name selfClosing =
        ((endOpening start offset name selfClosing).1.shift move,
          (endOpening start offset name selfClosing).2.map (·.shift move)) := by
    have kept := shift_of_start?_none move (afterOpening name selfClosing) (afterOpening_start? _ _)
    simp [endOpening,kept,Tag.shift,translated]
  have closing (start : Nat) (name : String) :
      endClosing (move start) (move offset) name =
        ((endClosing start offset name).1.shift move,(endClosing start offset name).2.map (·.shift move)) := by
    simp [endClosing,shift,Tag.shift,translated]
  have leave (start : Nat) (name : String) :
      leaveClosingName (move start) (move offset) name c =
        ((leaveClosingName start offset name c).1.shift move,
          (leaveClosingName start offset name c).2.map (·.shift move)) := by
    unfold leaveClosingName
    split_ifs
    · exact closing start name
    · rfl
  have text := shift_readText move offset c
  have raw (element : RawElement) := shift_readRaw move element offset c
  cases phase with
  | text => simp [shift,step,text]
  | bracket start => simp only [shift,step]; split_ifs <;> simp [shift,text]
  | bracketSlash start => simp only [shift,step]; split_ifs <;> simp [shift,text]
  | openingName start name =>
    simp only [shift,step]
    split_ifs
    · rfl
    · exact opening start _ _
    · rfl
  | openingInterior start name interior =>
    simp only [shift,step]
    split_ifs
    · exact opening start _ _
    · rfl
  | closingName start name =>
    simp only [shift,step]
    split_ifs
    · rfl
    · exact leave start _
  | closingInterior start name =>
    simp only [shift,step]
    split_ifs
    · exact closing start name
    · rfl
  | markup start interior =>
    simp only [shift,step]
    cases interior.next? c with
    | some next => rfl
    | none => simp [Tag.shift,translated]
  | raw element => simp [shift,step,raw]
  | rawBracket element start => simp only [shift,step]; split_ifs <;> simp [shift,raw]
  | rawName element start name =>
    simp only [shift,step]
    split_ifs
    · rfl
    · exact leave start _
    · rw [raw]
      rfl

theorem shift_finish (move : Nat → Nat) (phase : LexPhase) (length : Nat) :
    (phase.shift move).finish (move length) = (phase.finish length).map (·.shift move) := by
  cases phase with
  | rawName element start name =>
    simp only [shift,finish]
    split_ifs <;> rfl
  | _ => rfl

end LexPhase

/-- A text is read alike wherever it stands, if all offsets from its start on move together. -/
theorem lexFrom_shift (move : Nat → Nat) (phase : LexPhase) (offset : Nat) (text : List Char)
    (translated : ∀ count, move (offset + count) = move offset + count) :
    lexFrom (phase.shift move) (move offset) text = (lexFrom phase offset text).map (·.shift move) := by
  induction text generalizing phase offset with
  | nil =>
    rw [lexFrom,lexFrom,LexPhase.shift_finish]
    cases phase.finish offset <;> rfl
  | cons c rest ih =>
    have later : ∀ count, move (offset + c.utf8Size + count) = move (offset + c.utf8Size) + count := by
      intro count
      rw [Nat.add_assoc,translated,translated,Nat.add_assoc]
    rw [lexFrom,lexFrom,LexPhase.shift_step move phase offset c (translated 1),← translated]
    rcases phase.step offset c with ⟨next,_ | tag⟩
    · exact ih next _ later
    · simp only [Option.map_some,List.map_cons]
      rw [ih next _ later]

/-- How an opening tag ends whose part after the name is given: with a slash or without one. There is no
answer if it does not end with its last character, or if some of it belongs to the name. -/
def tagEnding? (inner : List Char) : Option Bool :=
  if inner.head?.any isNameChar || inner.getLast? != some '>' then none
  else ((TagInterior.plain false).advance? inner.dropLast).bind fun last =>
    if last.endsAt '>' then some last.slashed else none

theorem tagEnding?_eq_some_iff (inner : List Char) (slash : Bool) :
    tagEnding? inner = some slash ↔ (∀ c, inner.head? = some c → isNameChar c = false) ∧
      ∃ body last, inner = body ++ ['>'] ∧ TagInterior.advance? (.plain false) body = some last ∧
        last.endsAt '>' = true ∧ last.slashed = slash := by
  unfold tagEnding?
  constructor
  · intro found
    split_ifs at found with other
    simp only [Bool.or_eq_true,not_or,bne_iff_ne,ne_eq,Classical.not_not,Bool.not_eq_true,
      Option.any_eq_false] at other
    obtain ⟨last,passed,ends⟩ := Option.bind_eq_some_iff.mp found
    split_ifs at ends with ended
    refine ⟨by simpa using other.1,inner.dropLast,last,?_,passed,ended,Option.some.inj ends⟩
    exact (List.dropLast_append_getLast? '>' other.2).symm
  · rintro ⟨named,body,last,rfl,passed,ended,rfl⟩
    have first : (body ++ ['>']).head?.any isNameChar = false := by
      simpa [Option.any_eq_false] using named
    have bracket : (body ++ ['>']).getLast? = some '>' := by simp
    rw [first,bracket]
    simp [passed,ended]

theorem RegularTag.tagEnding (tag : RegularTag) : tagEnding? tag.inner = some tag.slash := by
  have named := tag.named_inner []
  rw [List.append_nil] at named
  exact (tagEnding?_eq_some_iff _ _).mpr ⟨named,tag.body,.plain tag.slash,rfl,tag.advance?_body,rfl,rfl⟩

/-- An element goes with its opening tag: what ends with its tag never changes, and only a slash makes an
element end so by itself. -/
inductive Node.OpenedBy (node : Node) (tag : Tag) : Prop
  | cut (open_ : tag.terminated = false) (extent : node.extent = .unterminated)
  | slashed (kind : tag.kind = .opening true) (extent : node.extent = .selfClosed)
  | plain (kind : tag.kind = .opening false) (ended : tag.terminated = true)
      (extent : node.extent ≠ .selfClosed)

namespace Outline

/-- What the pass over the tags keeps: each element goes with one of them, and the elements on the path
started with a tag that leaves them open. -/
structure OpenedBy (tags : List Tag) (outline : Outline) : Prop where
  opened : ∀ node ∈ outline.nodes, ∃ tag ∈ tags, tag.start = node.start ∧ node.OpenedBy tag
  open_ : ∀ entry ∈ outline.path, ∃ node, outline.nodes[entry.index]? = some node ∧
    ∃ tag ∈ tags, tag.start = node.start ∧ tag.kind = .opening false ∧ tag.terminated = true

variable {tags : List Tag} {outline : Outline}

theorem OpenedBy.modify (kept : outline.OpenedBy tags) (entry : OpenNode) (member : entry ∈ outline.path)
    (change : Node → Node) (start : ∀ node, (change node).start = node.start)
    (extent : ∀ node, (change node).extent ≠ .selfClosed) :
    OpenedBy tags { outline with nodes := outline.nodes.modify entry.index change } := by
  refine ⟨fun node found => ?_,fun other inside => ?_⟩
  · obtain ⟨i,before,present,rfl⟩ := mem_modify_some found
    split_ifs with here
    · obtain ⟨node,same,tag,lexed,place,kind,ended⟩ := kept.open_ entry member
      rw [here,present] at same
      obtain rfl := Option.some.inj same
      exact ⟨tag,lexed,by rw [place,start],.plain kind ended (extent before)⟩
    · exact kept.opened before (List.mem_of_getElem? present)
  · obtain ⟨node,present,tag,lexed,place,rest⟩ := kept.open_ other inside
    refine ⟨if entry.index = other.index then change node else node,?_,tag,lexed,?_,rest⟩
    · rw [List.getElem?_modify,present]
      rfl
    · rw [place]
      split_ifs
      · rw [start]
      · rfl

theorem OpenedBy.endAll (kept : outline.OpenedBy tags) (ended : List OpenNode)
    (members : ∀ entry ∈ ended, entry ∈ outline.path) (offset : Nat) (extent : OpenNode → Extent)
    (other : ∀ entry, extent entry ≠ .selfClosed) :
    OpenedBy tags { outline with nodes := endAll outline.nodes ended offset extent } := by
  unfold Outline.endAll
  induction ended generalizing outline with
  | nil => exact kept
  | cons entry rest ih =>
    exact ih (kept.modify entry (members entry List.mem_cons_self) (·.endAt offset (extent entry))
      (fun _ => rfl) fun _ => other entry) fun later inside => members later (List.mem_cons_of_mem _ inside)

theorem OpenedBy.shorten (kept : outline.OpenedBy tags) (path : List OpenNode) (owed : List String)
    (members : ∀ entry ∈ path, entry ∈ outline.path) : OpenedBy tags ⟨outline.nodes,path,owed⟩ :=
  ⟨kept.opened,fun entry inside => kept.open_ entry (members entry inside)⟩

theorem OpenedBy.sibling (kept : outline.OpenedBy tags) {name : String} {offset : Nat} {next : Outline}
    (sibling : outline.SiblingStep name offset next) : next.OpenedBy tags := by
  cases sibling with
  | stays => exact kept
  | ends top outer path =>
    exact (kept.endAll [top] (by simp [path]) offset (fun _ => .implied) (by simp)).shorten outer _
      fun entry inside => by rw [path]; exact List.mem_cons_of_mem _ inside

theorem OpenedBy.enter (kept : outline.OpenedBy tags) (length : Nat) {tag : Tag} (member : tag ∈ tags)
    {selfClosing : Bool} (kind : tag.kind = .opening selfClosing) :
    (outline.enter length tag selfClosing).OpenedBy tags := by
  have own (node : Node) (same : node.start = tag.start)
      (extent : node.extent = openingExtent tag selfClosing (asciiLower tag.name)) : node.OpenedBy tag := by
    unfold openingExtent at extent
    cases terminated : tag.terminated with
    | false => exact .cut terminated (by simpa [terminated] using extent)
    | true =>
      cases selfClosing with
      | true => exact .slashed kind (by simpa [terminated] using extent)
      | false =>
        refine .plain kind terminated ?_
        rw [extent,terminated]
        simp only [Bool.not_true,Bool.false_eq_true,if_false]
        split_ifs <;> simp
  refine ⟨fun node found => ?_,fun entry inside => ?_⟩
  · rcases List.mem_append.mp found with old | new
    · exact kept.opened node old
    · obtain rfl := List.mem_singleton.mp new
      exact ⟨tag,member,rfl,own _ rfl rfl⟩
  · have earlier (inside : entry ∈ outline.path) : ∃ node, (outline.enter length tag selfClosing).nodes[
        entry.index]? = some node ∧ ∃ tag ∈ tags, tag.start = node.start ∧ tag.kind = .opening false ∧
          tag.terminated = true := by
      obtain ⟨node,present,rest⟩ := kept.open_ entry inside
      exact ⟨node,getElem?_append_of_some _ present,rest⟩
    simp only [Outline.enter] at inside
    split_ifs at inside with content
    · rcases List.mem_cons.mp inside with rfl | old
      · simp only [hasContent,Bool.and_eq_true,Bool.not_eq_true'] at content
        obtain ⟨⟨terminated,open_⟩,_⟩ := content
        refine ⟨_,List.getElem?_concat_length,tag,member,rfl,?_,terminated⟩
        rw [kind,open_]
      · exact earlier old
    · exact earlier inside

theorem OpenedBy.closing (kept : outline.OpenedBy tags) {tag : Tag} {next : Outline}
    (closing : outline.ClosingStep tag next) : next.OpenedBy tags := by
  have left (entry : OpenNode) : innerExtent entry ≠ .selfClosed := by
    unfold innerExtent
    split_ifs <;> simp
  cases closing with
  | closes inner closed outer path =>
    have ended := kept.endAll inner (by simp +contextual [path]) tag.start innerExtent left
    exact (ended.modify closed (by simp [path]) (·.closeWith tag) (fun _ => rfl) (by simp [Node.closeWith])).shorten
      outer _ (by simp +contextual [path])
  | pays => exact kept.shorten _ _ fun _ => id
  | strays =>
    exact (kept.endAll outline.path (fun _ => id) tag.start (fun _ => .crossed) (by simp)).shorten [] _ (by simp)

theorem OpenedBy.step (kept : outline.OpenedBy tags) {length : Nat} {tag : Tag} (member : tag ∈ tags)
    {next : Outline} (step : Step length outline tag next) : next.OpenedBy tags := by
  cases step with
  | opening selfClosing kind before sibling => exact (kept.sibling sibling).enter length member kind
  | closing _ next closing => exact kept.closing closing
  | markup => exact kept

theorem OpenedBy.readAll (kept : outline.OpenedBy tags) (length : Nat) (some : List Tag)
    (members : ∀ tag ∈ some, tag ∈ tags) : (some.foldl (Outline.read length) outline).OpenedBy tags := by
  induction some generalizing outline with
  | nil => exact kept
  | cons tag rest ih =>
    have here := kept.step (members tag List.mem_cons_self) (outline.step tag length)
    exact ih here fun other member => members other (List.mem_cons_of_mem _ member)

end Outline

theorem outlineNodes_openedBy (text : List Char) (node : Node) (member : node ∈ outlineNodes text) :
    ∃ tag ∈ lex text, tag.start = node.start ∧ node.OpenedBy tag := by
  have start : Outline.OpenedBy (lex text) {} := ⟨by simp,by simp⟩
  exact (start.readAll (byteLength text) (lex text) fun _ => id).opened node member

theorem TagsInOrder.eq_of_start {length position : Nat} {tags : List Tag}
    (ordered : TagsInOrder length position tags) {first second : Tag} (one : first ∈ tags)
    (other : second ∈ tags) (same : first.start = second.start) : first = second := by
  induction tags generalizing position with
  | nil => contradiction
  | cons tag rest ih =>
    obtain ⟨⟨_,nonempty,_⟩,following⟩ := ordered
    have later {found : Tag} (inside : found ∈ rest) : tag.start < found.start := by
      have := following.le_start found inside
      omega
    rcases List.mem_cons.mp one with rfl | before
    · rcases List.mem_cons.mp other with rfl | after
      · rfl
      · have := later after
        omega
    · rcases List.mem_cons.mp other with rfl | after
      · have := later before
        omega
      · exact ih following before after

/-- The tags of a text around an opening tag that ends as stated. -/
theorem Ready.lex_tag {before : List Char} (ready : Ready before) (name inner after : List Char)
    (letter : ∃ c more, name = c :: more ∧ c.isAlpha = true)
    (written : ∀ c ∈ name, isNameChar c = true) (slash : Bool) (ending : tagEnding? inner = some slash) :
    lex (before ++ '<' :: (name ++ (inner ++ after))) = (LexPhase.run .text 0 before).1 ++
      ⟨.opening slash,String.ofList name,byteLength before,
          byteLength before + 1 + byteLength name + byteLength inner,true⟩ ::
        lexFrom (LexPhase.afterOpening (String.ofList name) slash)
          (byteLength before + 1 + byteLength name + byteLength inner) after := by
  obtain ⟨named,body,last,rfl,passed,ended,rfl⟩ := (tagEnding?_eq_some_iff inner slash).mp ending
  have follows : ∀ c, (body ++ '>' :: after).head? = some c → isNameChar c = false := by
    intro c head
    cases body with
    | nil => exact named c (by simpa using head)
    | cons d body => exact named c (by simpa using head)
  have size : byteLength before + byteLength ('<' :: (name ++ (body ++ ['>']))) =
      byteLength before + 1 + byteLength name + byteLength (body ++ ['>']) := by
    grind
  have lexed := lexFrom_bracket_tag (byteLength before) name body after last letter written follows passed ended
  rw [ready.lex_eq,List.append_assoc,List.singleton_append,lexed,size]

namespace Node.WrittenIn

variable {text before name inner after : List Char} {node : Node}

/-- The tag of an element whose end is known ends with a bracket, and with a slash exactly if the element
ends there for that reason. -/
theorem ending (written : node.WrittenIn text before name inner after) (member : node ∈ outlineNodes text)
    (known : node.extent.isKnown = true) :
    ∃ slash, tagEnding? inner = some slash ∧ (slash = true ↔ node.extent = .selfClosed) := by
  obtain ⟨tag,lexed,place,opened⟩ := outlineNodes_openedBy text node member
  have tagged := written.tag
  have same (found : Tag) (inside : found ∈ lex text) (start : found.start = byteLength before) :
      tag = found := (lex_inOrder text).eq_of_start lexed inside (by rw [place,start,written.start])
  rcases tagged.ended with ⟨last,passed,rfl⟩ | ⟨body,last,rfl,passed,ended⟩
  · -- The end of the text cuts the tag off, so the end of the element is not known.
    exfalso
    have whole : lex text = (LexPhase.run .text 0 before).1 ++
        [⟨.opening false,String.ofList name,byteLength before,
          byteLength before + 1 + byteLength name + byteLength inner,false⟩] := by
      rw [written.parts,written.ready.lex_eq,lexFrom_bracket_name _ name _ tagged.letter tagged.written
        tagged.named,lexFrom_advance _ _ _ _ _ _ _ passed]
      rfl
    obtain rfl := same _ (by rw [whole]; exact List.mem_append_right _ List.mem_cons_self) rfl
    cases opened with
    | cut _ extent =>
      rw [extent] at known
      contradiction
    | slashed kind => simp at kind
    | plain _ terminated => contradiction
  · have ending : tagEnding? (body ++ ['>']) = some last.slashed := by
      refine (tagEnding?_eq_some_iff _ _).mpr ⟨fun c head => tagged.named c ?_,body,last,rfl,passed,ended,rfl⟩
      cases body <;> simpa using head
    have whole := written.ready.lex_tag name _ after tagged.letter tagged.written last.slashed ending
    rw [← written.parts] at whole
    obtain rfl := same _ (by rw [whole]; exact List.mem_append_right _ List.mem_cons_self) rfl
    refine ⟨last.slashed,ending,?_⟩
    cases opened with
    | cut open_ => contradiction
    | slashed kind extent =>
      have slashed : last.slashed = true := by simpa using kind
      simp [slashed,extent]
    | plain kind _ extent =>
      have plain : last.slashed = false := by simpa using kind
      simp [plain,extent]

end Node.WrittenIn

theorem TagsInOrder.between {length position : Nat} {tags : List Tag}
    (ordered : TagsInOrder length position tags) (tag : Tag) (member : tag ∈ tags) :
    tag.start < tag.stop ∧ tag.stop ≤ length := by
  induction tags generalizing position with
  | nil => contradiction
  | cons first rest ih =>
    obtain ⟨⟨_,nonempty,inside,_⟩,following⟩ := ordered
    rcases List.mem_cons.mp member with rfl | further
    · exact ⟨nonempty,inside⟩
    · exact ih following further

theorem run_between (before : List Char) (tag : Tag) (member : tag ∈ (LexPhase.run .text 0 before).1) :
    tag.start < tag.stop ∧ tag.stop ≤ byteLength before := by
  refine (lex_inOrder before).between tag ?_
  rw [lex,lexFrom_eq_run]
  exact List.mem_append_left _ member

/-- The offsets of a text in which the opening tag of the element has come to end elsewhere. -/
def Node.move (node : Node) (openStop offset : Nat) : Nat :=
  if offset < node.openStop then offset else offset - node.openStop + openStop

theorem Node.move_before (node : Node) (openStop offset : Nat) (before : offset < node.openStop) :
    node.move openStop offset = offset := if_pos before

@[simp] theorem Node.move_after (node : Node) (openStop count : Nat) :
    node.move openStop (node.openStop + count) = openStop + count := by
  rw [move,if_neg (by omega)]
  omega

namespace Node.WrittenIn

variable {text before name inner after : List Char} {node : Node}

theorem lex_moves (written : node.WrittenIn text before name inner after) (changed : List Char)
    (slash : Bool) (ending : tagEnding? inner = some slash) (again : tagEnding? changed = some slash) :
    lex (before ++ '<' :: (name ++ (changed ++ after))) =
      (lex text).map (·.shift (node.move (node.start + 1 + byteLength name + byteLength changed))) := by
  have start := written.start
  have openStop := written.openStop
  generalize place : node.start + 1 + byteLength name + byteLength changed = moved
  have fixed (offset : Nat) (below : offset ≤ node.start) : node.move moved offset = offset :=
    node.move_before moved offset (by omega)
  have here : node.move moved node.openStop = moved := by simpa using node.move_after moved 0
  have front : (LexPhase.run .text 0 before).1.map (·.shift (node.move moved)) =
      (LexPhase.run .text 0 before).1 := by
    refine (List.map_congr_left fun tag member => ?_).trans (List.map_id _)
    have bounds := run_between before tag member
    simp [Tag.shift,fixed tag.start (by omega),fixed tag.stop (by omega)]
  have back := lexFrom_shift (node.move moved) (LexPhase.afterOpening (String.ofList name) slash)
    node.openStop after fun count => by rw [node.move_after,here]
  rw [LexPhase.shift_of_start?_none _ _ (LexPhase.afterOpening_start? _ _),here] at back
  rw [written.parts,written.ready.lex_tag name changed after written.tag.letter written.tag.written slash again,
    written.ready.lex_tag name inner after written.tag.letter written.tag.written slash ending,start,← openStop,
    place,List.map_append,List.map_cons,front,← back]
  simp [Tag.shift,fixed node.start (by omega),here]

theorem outline_moves (written : node.WrittenIn text before name inner after) (changed : List Char)
    (slash : Bool) (ending : tagEnding? inner = some slash) (again : tagEnding? changed = some slash) :
    outlineNodes (before ++ '<' :: (name ++ (changed ++ after))) =
      (outlineNodes text).map
        (·.shift (node.move (node.start + 1 + byteLength name + byteLength changed))) := by
  have length : byteLength (before ++ '<' :: (name ++ (changed ++ after))) =
      node.move (node.start + 1 + byteLength name + byteLength changed) (byteLength text) := by
    have start := written.start
    have openStop := written.openStop
    have whole : byteLength text = node.openStop + byteLength after := by
      rw [written.parts]
      grind
    rw [whole,node.move_after]
    grind
  unfold outlineNodes
  rw [written.lex_moves changed slash ending again,length]
  exact congrArg Outline.nodes (Outline.shift_readAll _ (byteLength text) (lex text) {}).symm

theorem unique (written : node.WrittenIn text before name inner after) {front label rest back : List Char}
    (parts : text = front ++ '<' :: (label ++ (rest ++ back))) (start : byteLength front = node.start)
    (named : asciiLower (String.ofList label) = node.name)
    (openStop : node.openStop = node.start + 1 + byteLength label + byteLength rest) :
    front = before ∧ label = name ∧ rest = inner ∧ back = after := by
  have stop := written.openStop
  have size : byteLength label = byteLength name := by
    have lower := byteLength_asciiLower (String.ofList label)
    rw [named,written.named,byteLength_asciiLower,String.toList_ofList,String.toList_ofList] at lower
    exact lower.symm
  obtain ⟨fronts,tags⟩ := append_inj_of_byteLength (parts.symm.trans written.parts)
    (by rw [start,written.start])
  obtain ⟨names,tails⟩ := append_inj_of_byteLength (List.cons.inj tags).2 size
  obtain ⟨inners,backs⟩ := append_inj_of_byteLength tails (by omega)
  exact ⟨fronts,names,inners,backs⟩

theorem outline_moves_iff (written : node.WrittenIn text before name inner after)
    (member : node ∈ outlineNodes text) (known : node.extent.isKnown = true) (changed : List Char) :
    outlineNodes (before ++ '<' :: (name ++ (changed ++ after))) = (outlineNodes text).map
        (·.shift (node.move (node.start + 1 + byteLength name + byteLength changed))) ↔
      tagEnding? changed = tagEnding? inner := by
  obtain ⟨slash,ending,slashed⟩ := written.ending member known
  constructor
  · intro moves
    have start : node.move (node.start + 1 + byteLength name + byteLength changed) node.start = node.start :=
      node.move_before _ _ (by rw [written.openStop]; omega)
    have openStop := node.move_after (node.start + 1 + byteLength name + byteLength changed) 0
    have found := List.mem_map_of_mem (f := (·.shift (node.move
      (node.start + 1 + byteLength name + byteLength changed)))) member
    rw [← moves] at found
    obtain ⟨front,label,rest,back,rewritten⟩ := exists_writtenIn _ _ found
    obtain ⟨rfl,rfl,rfl,rfl⟩ := rewritten.unique rfl (by rw [written.start]; exact start.symm)
      written.named.symm (by simpa [shift,start] using openStop)
    obtain ⟨other,again,sameSlash⟩ := rewritten.ending found known
    rw [again,ending,Option.some.injEq,Bool.eq_iff_iff,slashed,sameSlash]
    rfl
  · intro same
    exact written.outline_moves changed slash ending (same.trans ending)

end Node.WrittenIn

/-- How the opening tag of an element ends if it ends at the offset. -/
def Node.endingAt? (node : Node) (text : List Char) (openStop : Nat) : Option Bool :=
  (slice? text (Fix.nameStop node) openStop).bind tagEnding?

theorem Node.WrittenIn.endingAt?_eq {text before name inner after : List Char} {node : Node}
    (written : node.WrittenIn text before name inner after) (changed : List Char) :
    node.endingAt? (before ++ '<' :: (name ++ (changed ++ after)))
      (node.start + 1 + byteLength name + byteLength changed) = tagEnding? changed := by
  have nameStop : Fix.nameStop node = byteLength (before ++ '<' :: name) := by
    rw [Fix.nameStop,written.named,byteLength_asciiLower,String.toList_ofList,byteLength_append,byteLength_cons,
      written.start]
    grind
  have openStop : node.start + 1 + byteLength name + byteLength changed =
      byteLength (before ++ '<' :: name) + byteLength changed := by
    rw [byteLength_append,byteLength_cons,written.start]
    grind
  have sliced := slice?_append (before ++ '<' :: name) changed after
  rw [endingAt?,nameStop,openStop]
  simp only [List.append_assoc,List.cons_append] at sliced ⊢
  rw [sliced,Option.bind_some]

/-- What an element is in the structure of a document. -/
def Element.shape (element : Element) : String × Option Nat × Nat × Extent :=
  (element.name,element.parent,element.depth,element.extent)

end Markup

open Text Markup

/-- Where an offset behind the edit comes to stand. -/
def Edit.moved (edit : Edit) (offset : Nat) : Nat :=
  offset + byteLength edit.replacement - (edit.range.stop - edit.range.start)

theorem Edit.byteLength_apply {edit : Edit} {text result : List Char} (applied : edit.apply text = .ok result) :
    byteLength result + (edit.range.stop - edit.range.start) =
      byteLength text + byteLength edit.replacement := by
  unfold Edit.apply at applied
  dsimp only at applied
  split at applied
  next before _ _ after first second =>
    split_ifs at applied with ordered
    obtain rfl := Except.ok.inj applied
    obtain ⟨rfl,start⟩ := splitAt?_some _ _ _ _ first
    obtain ⟨same,stop⟩ := splitAt?_some _ _ _ _ second
    have sizes := congrArg byteLength same
    grind
  next => contradiction

theorem Fix.exists_changed (fix : Fix) (kind : fix.changesAttributes = true) {text : List Char} {node : Node}
    (member : node ∈ outlineNodes text) {edit : Edit}
    (planned : fix.plan text node.start Filter.keep = .ok (.applied edit)) :
    ∃ before name inner changed after, node.WrittenIn text before name inner after ∧
      edit.apply text = .ok (before ++ '<' :: (name ++ (changed ++ after))) := by
  obtain ⟨before,name,inner,after,written⟩ := Node.exists_writtenIn text node member
  have stop := written.openStop
  obtain ⟨parent,located⟩ := FixTarget.locate?_inside text node member node.start (by omega) (by omega)
  have confined := fix.plan_localTo text node.start Filter.keep
  rw [planned] at confined
  obtain ⟨_,target,found,confined⟩ := confined
  have kept : Filter.apply Filter.keep text = text := rfl
  rw [kept,located] at found
  obtain rfl := Option.some.inj found
  obtain ⟨front,label,rest,body,back,_,parts,rewrites,applied⟩ := confined.rewrites
  have whole : text = front ++ '<' :: (label ++ (rest ++ (body ++ back))) := by
    rw [parts.parts]
    simp
  obtain ⟨rfl,rfl,rfl,rfl⟩ := written.unique whole parts.start parts.named parts.openStop
  rcases rewrites with ⟨_,changed,_⟩ | _ | _ | _ | _
  · exact ⟨front,label,rest,changed,body ++ back,written,by rw [applied]; simp⟩
  all_goals contradiction

/-- A fix of an attribute leaves the structure of the document as it was, exactly when the tag that it
changes ends with the same bracket as before and still with or without a slash. -/
theorem attributeFix_keeps_outline_iff (fix : Fix) (kind : fix.changesAttributes = true) (text : List Char)
    (element : Element) (member : element ∈ elements text) (known : element.isKnown = true) (edit : Edit)
    (planned : fix.plan text element.start Filter.keep = .ok (.applied edit)) :
    ∃ result, edit.apply text = .ok result ∧
      (outlineNodes result =
          (outlineNodes text).map (·.shift (element.toNode.move (edit.moved element.openStop))) ↔
        element.endingAt? result (edit.moved element.openStop) =
          element.endingAt? text element.openStop) ∧
      (element.endingAt? result (edit.moved element.openStop) =
          element.endingAt? text element.openStop →
        (elements result).map Element.shape = (elements text).map Element.shape) := by
  obtain ⟨node,found,rfl⟩ := List.mem_map.mp member
  obtain ⟨before,name,inner,changed,after,written,applied⟩ := fix.exists_changed kind found planned
  have moved : edit.moved node.openStop = node.start + 1 + byteLength name + byteLength changed := by
    have sizes := Edit.byteLength_apply applied
    have stop := written.openStop
    rw [written.parts] at sizes
    simp only [byteLength_append,byteLength_cons] at sizes
    unfold Edit.moved
    omega
  have old : node.endingAt? text node.openStop = tagEnding? inner := by
    rw [written.openStop,written.parts,written.endingAt?_eq]
  have new : node.endingAt? (before ++ '<' :: (name ++ (changed ++ after))) (edit.moved node.openStop) =
      tagEnding? changed := by
    rw [moved,written.endingAt?_eq]
  have moves := written.outline_moves_iff found known changed
  rw [← moved,← old,← new] at moves
  refine ⟨_,applied,moves,fun same => ?_⟩
  have shapes (text : List Char) : (elements text).map Element.shape =
      (outlineNodes text).map fun node => (node.name,node.parent,node.depth,node.extent) := by
    rw [elements,List.map_map]
    rfl
  rw [shapes,shapes,moves.mpr same,List.map_map]
  rfl

theorem attributeFix_keeps_outline_spaced :
    (∃ edit result, Fix.plan (.removeAttribute "a") "<ul><li a=\"1\" b=\"2\">x</li></ul>".toList 4 Filter.keep =
        .ok (.applied edit) ∧
      edit.apply "<ul><li a=\"1\" b=\"2\">x</li></ul>".toList = .ok result ∧
      (elements result).map Element.shape =
        (elements "<ul><li a=\"1\" b=\"2\">x</li></ul>".toList).map Element.shape) ∧
    ∃ edit result, Fix.plan (.removeAttribute "a") "<li a=\"1\"b=\"2\">x</li>".toList 0 Filter.keep =
        .ok (.applied edit) ∧
      edit.apply "<li a=\"1\"b=\"2\">x</li>".toList = .ok result ∧
      (elements result).map Element.shape ≠
        (elements "<li a=\"1\"b=\"2\">x</li>".toList).map Element.shape := by
  constructor
  · have element : ∃ element ∈ elements "<ul><li a=\"1\" b=\"2\">x</li></ul>".toList,
        element.start = 4 ∧ element.isKnown = true ∧
        element.endingAt? "<ul><li b=\"2\">x</li></ul>".toList
          (Edit.moved ⟨⟨7,13⟩,[]⟩ element.openStop) =
          element.endingAt? "<ul><li a=\"1\" b=\"2\">x</li></ul>".toList element.openStop := by
      decide +kernel
    obtain ⟨element,member,start,known,same⟩ := element
    have planned : Fix.plan (.removeAttribute "a") "<ul><li a=\"1\" b=\"2\">x</li></ul>".toList element.start
        Filter.keep = .ok (.applied ⟨⟨7,13⟩,[]⟩) := by
      rw [start]
      decide +kernel
    have applied : Edit.apply ⟨⟨7,13⟩,[]⟩ "<ul><li a=\"1\" b=\"2\">x</li></ul>".toList =
        .ok "<ul><li b=\"2\">x</li></ul>".toList := by decide +kernel
    obtain ⟨result,made,_,kept⟩ := attributeFix_keeps_outline_iff _ rfl _ element member known _ planned
    rw [start] at planned
    refine ⟨_,result,planned,made,kept ?_⟩
    obtain rfl := Except.ok.inj (made.symm.trans applied)
    exact same
  · refine ⟨⟨⟨3,9⟩,[]⟩,"<lib=\"2\">x</li>".toList,?_,?_,?_⟩ <;> decide +kernel

end AccessibleMarkup
