import AccessibleMarkup.Proofs.CollapsedText
import AccessibleMarkup.Proofs.TagSequences
import AccessibleMarkup.Proofs.TemplatedValues
import AccessibleMarkup.Proofs.WrappedTexts

/-! The tags in the content of elements. Read for itself, the content of an element has the tags that the text has
there: it starts in plain text, behind the opening tag, and where it ends another tag starts or nothing follows. So
the words of an element are what stands outside the tags of the text. -/
namespace AccessibleMarkup.Markup

open Text

def Tag.isWithin (tag : Tag) (first last : Nat) : Bool := first ≤ tag.start && tag.stop ≤ last

theorem Tag.isWithin_iff (tag : Tag) (first last : Nat) :
    tag.isWithin first last = true ↔ first ≤ tag.start ∧ tag.stop ≤ last := by
  rw [isWithin,Bool.and_eq_true,decide_eq_true_eq,decide_eq_true_eq]

theorem LexPhase.finish_of_starts (phase : LexPhase) (offset : Nat) (other : phase.start? ≠ some offset)
    (starts : (phase.step offset '<').1.start? = some offset) (length : Nat) : phase.finish length = none := by
  rcases (phase.step_turn offset '<').starts other starts with ⟨reads,_⟩ | ⟨element,reads,_⟩
  · cases reads <;> rfl
  · cases reads with
    | raw | rawBracket => rfl
    | rawName start chars _ foreign => simp [finish,foreign]

section Content

variable {front content after : List Char}

theorem finish_before_tag {tag : Tag} (member : tag ∈ lex (front ++ after)) (start : tag.start = byteLength front) :
    (phaseAfter front).finish (byteLength front) = none := by
  have found := mem_lexFrom_of_open member (start ▸ ((lex_inOrder _).between tag member).1)
  obtain ⟨_,_,pending⟩ := bracket_of_starts found start
  exact (phaseAfter front).finish_of_starts _ (phaseAfter_start?_ne front) pending _

theorem filter_run_before (front : List Char) (last : Nat) :
    (LexPhase.run .text 0 front).1.filter (·.isWithin (byteLength front) last) = [] := by
  rw [List.filter_eq_nil_iff]
  intro tag member
  have := run_between front tag member
  rw [Tag.isWithin_iff]
  omega

theorem filter_lexFrom_behind (phase : LexPhase) (first offset : Nat) (more : after ≠ []) :
    (lexFrom phase offset after).filter (·.isWithin first offset) = [] := by
  rw [List.filter_eq_nil_iff]
  intro tag member
  have := (lexFrom_place _ _ _ tag member).2.2 more
  rw [Tag.isWithin_iff]
  omega

theorem filter_lexFrom_content (front content : List Char) :
    (lexFrom .text (byteLength front) content).filter
      (·.isWithin (byteLength front) (byteLength front + byteLength content)) =
        lexFrom .text (byteLength front) content := by
  rw [List.filter_eq_self]
  intro tag member
  obtain ⟨first,_,last⟩ := (tagSequence_lexFrom front content).bounded tag member
  rw [byteLength_append] at last
  exact (tag.isWithin_iff _ _).mpr ⟨first,last⟩

theorem filter_within_nothing (text : List Char) (place : Nat) :
    (lex text).filter (·.isWithin place place) = [] := by
  rw [List.filter_eq_nil_iff]
  intro tag member
  have := ((lex_inOrder text).between tag member).1
  rw [Tag.isWithin_iff]
  omega

/-- A part of a text that starts in plain text and ends with the text or before a tag has the tags that the text has
there. -/
theorem lex_content (plain : phaseAfter front = .text)
    (ended : after = [] ∨ ∃ tag ∈ lex (front ++ (content ++ after)), tag.start = byteLength (front ++ content)) :
    (lex content).map (·.shift (byteLength front + ·)) = (lex (front ++ (content ++ after))).filter
      (·.isWithin (byteLength front) (byteLength front + byteLength content)) := by
  have moved : lexFrom .text (byteLength front) content = (lex content).map (·.shift (byteLength front + ·)) :=
    lexFrom_shift (byteLength front + ·) .text 0 content fun count => by simp
  have whole : lex (front ++ (content ++ after)) = (LexPhase.run .text 0 front).1 ++
      lexFrom .text (byteLength front) (content ++ after) := by
    rw [lex,lexFrom_append,Nat.zero_add]
    exact congrArg (fun phase => _ ++ lexFrom phase _ _) plain
  rw [whole,List.filter_append,filter_run_before,List.nil_append,← moved]
  by_cases more : after = []
  · rw [more,List.append_nil,filter_lexFrom_content]
  · obtain ⟨tag,member,start⟩ := ended.resolve_left more
    rw [← List.append_assoc] at member
    have closed : (LexPhase.run .text (byteLength front) content).2.finish (byteLength front + byteLength content) =
        none := by
      have none := finish_before_tag member start
      rwa [phaseAfter_append,plain,byteLength_append] at none
    have alone := lexFrom_eq_run .text (byteLength front) content
    rw [closed,Option.toList_none,List.append_nil] at alone
    rw [lexFrom_append,List.filter_append,filter_lexFrom_behind _ _ _ more,List.append_nil,← alone,
      filter_lexFrom_content]

end Content

theorem Tag.contains_range (tag : Tag) (offset : Nat) :
    tag.range.contains offset = true ↔ tag.start ≤ offset ∧ offset < tag.stop := by
  rw [ByteRange.contains,Bool.and_eq_true,decide_eq_true_eq,decide_eq_true_eq]
  rfl

theorem Tag.contains_shift (tag : Tag) (base offset : Nat) :
    (tag.shift (base + ·)).range.contains (base + offset) = tag.range.contains offset := by
  rw [Bool.eq_iff_iff,contains_range,contains_range]
  simp [shift]

/-- What is left of the character at `offset` outside the tags: a space where a tag starts, and nothing in it. -/
def outsideChar (tags : List Tag) (offset : Nat) (c : Char) : List Char :=
  if tags.any (·.start == offset) then [' '] else if tags.any (·.range.contains offset) then [] else [c]

/-- A text that starts at `offset`, without what stands in the tags and with a space in place of each of them. -/
def outside (tags : List Tag) : Nat → List Char → List Char
  | _, [] => []
  | offset, c :: rest => outsideChar tags offset c ++ outside tags (offset + c.utf8Size) rest

section Outside

variable {tags others : List Tag} {offset : Nat} {text : List Char}

theorem outside_append (tags : List Tag) (offset : Nat) (first second : List Char) :
    outside tags offset (first ++ second) =
      outside tags offset first ++ outside tags (offset + byteLength first) second := by
  induction first generalizing offset with
  | nil => rfl
  | cons c rest ih =>
    rw [List.cons_append,outside,ih,outside,byteLength_cons,List.append_assoc,Nat.add_assoc]

theorem outside_congr (same : ∀ place, offset ≤ place → place < offset + byteLength text →
    outsideChar tags place = outsideChar others place) : outside tags offset text = outside others offset text := by
  induction text generalizing offset with
  | nil => rfl
  | cons c rest ih =>
    have size := Char.utf8Size_pos c
    rw [byteLength_cons] at same
    rw [outside,outside,same offset (by omega) (by omega),ih fun place first last => same place (by omega) (by omega)]

theorem outside_none (offset : Nat) (text : List Char) : outside [] offset text = text := by
  induction text generalizing offset with
  | nil => rfl
  | cons c rest ih => rw [outside,ih]; rfl

theorem outside_inside (covered : ∀ place, offset ≤ place → place < offset + byteLength text → ∀ c,
    outsideChar tags place c = []) : outside tags offset text = [] := by
  induction text generalizing offset with
  | nil => rfl
  | cons c rest ih =>
    have size := Char.utf8Size_pos c
    rw [byteLength_cons] at covered
    rw [outside,covered offset (by omega) (by omega),ih fun place first last => covered place (by omega) (by omega)]
    rfl

theorem outside_shift (base : Nat) (tags : List Tag) (offset : Nat) (text : List Char) :
    outside (tags.map (·.shift (base + ·))) (base + offset) text = outside tags offset text := by
  induction text generalizing offset with
  | nil => rfl
  | cons c rest ih =>
    have starts (tag : Tag) : ((tag.shift (base + ·)).start == base + offset) = (tag.start == offset) := by
      rw [Bool.eq_iff_iff,beq_iff_eq,beq_iff_eq]
      exact Nat.add_left_cancel_iff
    have char : outsideChar (tags.map (·.shift (base + ·))) (base + offset) c = outsideChar tags offset c := by
      simp only [outsideChar,List.any_map,Function.comp_def,starts,Tag.contains_shift]
    rw [outside,outside,char,Nat.add_assoc,ih]

theorem outsideChar_cons {tag : Tag} {place : Nat} (nonempty : tag.start < tag.stop)
    (other : place < tag.start ∨ tag.stop ≤ place) : outsideChar (tag :: tags) place = outsideChar tags place := by
  have start : (tag.start == place) = false := beq_eq_false_iff_ne.mpr (by omega)
  have inside : tag.range.contains place = false := by
    rw [Bool.eq_false_iff,ne_eq,Tag.contains_range]
    omega
  funext c
  simp only [outsideChar,List.any_cons,start,inside,Bool.false_or]

theorem outsideChar_before {length place position : Nat} (ordered : TagsInOrder length position tags)
    (before : place < position) : outsideChar tags place = outsideChar [] place := by
  induction tags generalizing position with
  | nil => rfl
  | cons tag rest ih =>
    obtain ⟨⟨first,nonempty,_⟩,following⟩ := ordered
    rw [outsideChar_cons nonempty (Or.inl (by omega)),ih following (by omega)]

theorem outsideChar_inside {tag : Tag} {place : Nat} (first : tag.start < place) (last : place < tag.stop)
    (later : ∀ other ∈ tags, tag.stop ≤ other.start) (c : Char) : outsideChar (tag :: tags) place c = [] := by
  have starts : ((tag :: tags).any fun tag => tag.start == place) = false := by
    rw [List.any_eq_false]
    intro other member
    rw [beq_iff_eq]
    rcases List.mem_cons.mp member with rfl | further
    · omega
    · have := later other further
      omega
  have inside : ((tag :: tags).any fun tag => tag.range.contains place) = true := by
    rw [List.any_cons,(tag.contains_range place).mpr ⟨first.le,last⟩,Bool.true_or]
  rw [outsideChar,starts,inside,if_neg Bool.false_ne_true,if_pos rfl]

/-- The tag stands in a text that starts at `offset`, from its bracket to its end. -/
def Tag.CutFrom (tag : Tag) (offset : Nat) (text : List Char) : Prop :=
  ∃ before inner after, text = before ++ ('<' :: (inner ++ after)) ∧ offset + byteLength before = tag.start ∧
    tag.start + 1 + byteLength inner = tag.stop

theorem Tag.CutFrom.drop {tag : Tag} {before after : List Char} (cut : tag.CutFrom offset (before ++ after))
    (later : offset + byteLength before ≤ tag.start) : tag.CutFrom (offset + byteLength before) after := by
  obtain ⟨front,inner,rest,same,start,stop⟩ := cut
  obtain ⟨middle,rfl,rfl⟩ := append_of_byteLength_le same (by omega)
  rw [byteLength_append] at start
  exact ⟨middle,inner,rest,rfl,by omega,stop⟩

theorem outside_cut {tag : Tag} {length : Nat} {before inner after : List Char}
    (ordered : TagsInOrder length tag.start (tag :: tags)) (start : offset + byteLength before = tag.start)
    (stop : tag.start + 1 + byteLength inner = tag.stop) :
    outside (tag :: tags) offset (before ++ ('<' :: (inner ++ after))) = before ++ ' ' :: outside tags tag.stop after := by
  have whole := ordered
  obtain ⟨⟨_,nonempty,_⟩,following⟩ := ordered
  have front : outside (tag :: tags) offset before = before := by
    have free : outside (tag :: tags) offset before = outside [] offset before :=
      outside_congr fun place _ last => outsideChar_before whole (by omega)
    rw [free,outside_none]
  have bracket : outsideChar (tag :: tags) tag.start '<' = [' '] := by simp [outsideChar]
  have middle : outside (tag :: tags) (tag.start + 1) inner = [] :=
    outside_inside fun place first last => outsideChar_inside (by omega) (by omega) following.le_start
  have back : outside (tag :: tags) tag.stop after = outside tags tag.stop after :=
    outside_congr fun place first _ => outsideChar_cons nonempty (Or.inr first)
  have one : Char.utf8Size '<' = 1 := rfl
  rw [outside_append,front,start,outside,bracket,outside_append,one,middle,stop,back]
  rfl

theorem textBetween_eq_outside {length : Nat} (ordered : TagsInOrder length offset tags)
    (cut : ∀ tag ∈ tags, tag.CutFrom offset text) : textBetween offset tags text = outside tags offset text := by
  induction tags generalizing offset text with
  | nil => rw [textBetween,outside_none]
  | cons tag rest ih =>
    obtain ⟨⟨_,nonempty,bounds⟩,following⟩ := ordered
    have here : TagsInOrder length tag.start (tag :: rest) := ⟨⟨le_rfl,nonempty,bounds⟩,following⟩
    obtain ⟨before,inner,after,rfl,start,stop⟩ := cut tag List.mem_cons_self
    have written : byteLength ('<' :: inner) = tag.stop - tag.start := by
      grind
    have split : splitAt? (before ++ ('<' :: (inner ++ after))) (tag.start - offset) =
        some (before,('<' :: inner) ++ after) := by
      rw [← start,Nat.add_sub_cancel_left]
      exact splitAt?_append before _
    have dropped : dropBytes (('<' :: inner) ++ after) (tag.stop - tag.start) = after := by
      rw [dropBytes,← written,splitAt?_append]
      rfl
    have further : ∀ other ∈ rest, other.CutFrom tag.stop after := by
      intro other member
      have placed : other.CutFrom offset ((before ++ '<' :: inner) ++ after) := by
        simpa using cut other (List.mem_cons_of_mem _ member)
      have reach : offset + byteLength (before ++ '<' :: inner) = tag.stop := by
        grind
      have := placed.drop (reach ▸ following.le_start other member)
      rwa [reach] at this
    rw [textBetween,split]
    dsimp only
    rw [dropped,ih following further,outside_cut here start stop]

theorem textBetween_lex (text : List Char) : textBetween 0 (lex text) text = outside (lex text) 0 text := by
  refine textBetween_eq_outside (lex_inOrder text) fun tag member => ?_
  obtain ⟨inner,sliced⟩ := (tagSequence_lexFrom [] text).written tag member
  obtain ⟨before,after,parts,start,stop⟩ := slice?_some _ _ _ _ sliced
  rw [byteLength_cons] at stop
  exact ⟨before,inner,after,parts,by grind,by grind⟩

end Outside

def Element.contentTags (element : Element) (text : List Char) : List Tag :=
  (lex text).filter (·.isWithin element.contentRange.start element.contentRange.stop)

/-- Where the content of an element stands in a text. -/
structure Node.ContentIn (text : List Char) (node : Node) (front content after : List Char) : Prop where
  parts : text = front ++ (content ++ after)
  start : byteLength front = node.openStop
  stop : node.closeStart = node.openStop + byteLength content

namespace Node

variable {text : List Char} {node : Node}

theorem exists_contentIn (member : node ∈ outlineNodes text) :
    ∃ front content after, node.ContentIn text front content after ∧
      slice? text node.openStop node.closeStart = some content := by
  obtain ⟨content,sliced⟩ := Element.exists_content (List.mem_map_of_mem member)
  rw [Element.content?,Element.contentRange_eq member] at sliced
  obtain ⟨front,after,parts,start,stop⟩ := slice?_some _ _ _ _ sliced
  exact ⟨front,content,after,⟨parts,start,stop⟩,sliced⟩

variable {front content after : List Char}

theorem ContentIn.ended (placed : node.ContentIn text front content after) (member : node ∈ outlineNodes text) :
    content = [] ∨ after = [] ∨ ∃ tag ∈ lex text, tag.start = byteLength (front ++ content) := by
  have stop : byteLength (front ++ content) = node.closeStart := by
    rw [byteLength_append,placed.start,placed.stop]
  have empty {chars : List Char} (size : byteLength chars = 0) : chars = [] :=
    List.eq_nil_of_length_eq_zero (Nat.le_zero.mp (size ▸ length_le_byteLength chars))
  cases outlineNodes_endsBy text node member with
  | closing tag read _ _ start => exact Or.inr (Or.inr ⟨tag,read,start.symm.trans stop.symm⟩)
  | before tag read _ last start => exact Or.inr (Or.inr ⟨tag,read,(last.trans start).symm.trans stop.symm⟩)
  | opening _ last start =>
    have := placed.stop
    exact Or.inl (empty (by omega))
  | atEnd _ last start =>
    have whole := congrArg byteLength placed.parts
    rw [← List.append_assoc,byteLength_append] at whole
    exact Or.inr (Or.inl (empty (by omega)))

theorem ContentIn.plain (placed : node.ContentIn text front content after) (member : node ∈ outlineNodes text)
    (script : node.name ≠ "script") (style : node.name ≠ "style") :
    content ++ after = [] ∨ phaseAfter front = .text := by
  obtain ⟨tag,read,_,head⟩ := exists_openingTag member
  simp only [Tag.head,Node.head,Prod.mk.injEq] at head
  obtain ⟨named,_,stop⟩ := head
  rw [← named] at script style
  by_cases more : content ++ after = []
  · exact Or.inl more
  · rw [placed.parts] at read
    exact Or.inr (phaseAfter_tag read (stop.trans placed.start.symm) more (foreign_of_lower script style).1)

/-- Read for itself, the content has the tags that the text has there. -/
theorem ContentIn.lex_eq (placed : node.ContentIn text front content after) (member : node ∈ outlineNodes text)
    (script : node.name ≠ "script") (style : node.name ≠ "style") :
    (lex content).map (·.shift (node.openStop + ·)) =
      (lex text).filter (·.isWithin node.openStop node.closeStart) := by
  have nothing (empty : content = []) : (lex content).map (·.shift (node.openStop + ·)) =
      (lex text).filter (·.isWithin node.openStop node.closeStart) := by
    rw [placed.stop,empty,byteLength_nil,Nat.add_zero,filter_within_nothing]
    rfl
  rcases placed.plain member script style with none | plain
  · exact nothing (List.append_eq_nil_iff.mp none).1
  · rcases placed.ended member with none | ended
    · exact nothing none
    · rw [placed.parts] at ended
      have found := lex_content plain ended
      rwa [placed.start,← placed.stop,← placed.parts] at found

end Node

/-- An element that is not raw has in its content the tags of the text, and its words are those of the content
outside these tags, with one space between them. -/
theorem innerText_own_tags {text : List Char} {element : Element} (member : element ∈ elements text)
    (script : element.name ≠ "script") (style : element.name ≠ "style") :
    ∃ content, element.content? text = some content ∧
      (lex content).map (·.shift (element.contentRange.start + ·)) = element.contentTags text ∧
      ∃ words, HasWords (outside (element.contentTags text) element.contentRange.start content) words ∧
        (element.innerText text).toList = [' '].intercalate words ∧ Collapsed (element.innerText text).toList := by
  obtain ⟨node,found,rfl⟩ := List.mem_map.mp member
  obtain ⟨front,content,after,placed,sliced⟩ := Node.exists_contentIn found
  have range := Element.contentRange_eq found
  have tags := placed.lex_eq found script style
  have cut : (Element.ofNode text node).content? text = some content := by rwa [Element.content?,range]
  have own : (lex content).map (·.shift (node.openStop + ·)) = (Element.ofNode text node).contentTags text := by
    rw [Element.contentTags,range]
    exact tags
  have between : (Element.ofNode text node).innerText text =
      collapse (outside ((Element.ofNode text node).contentTags text) node.openStop content) := by
    rw [Element.innerText,cut,← own]
    exact congrArg collapse ((textBetween_lex content).trans (outside_shift node.openStop (lex content) 0 content).symm)
  rw [between,range]
  exact ⟨content,cut,own,collapse_words _⟩

theorem innerText_own_tags_crossed :
    let text := "<p>x<div>é <script>'</div>'</script>\n<b>b</b><!-- <i> --></p>".toList
    ∃ element ∈ elements text, element.name = "div" ∧ element.extent = .crossed ∧ element.contentRange = ⟨9,58⟩ ∧
      element.innerText text = "é '</div>' b" ∧
      ∃ content, element.content? text = some content ∧
        (lex content).map (·.shift (9 + ·)) = element.contentTags text ∧
        ∃ words, HasWords (outside (element.contentTags text) 9 content) words ∧
          (element.innerText text).toList = [' '].intercalate words ∧
          Collapsed (element.innerText text).toList := by
  intro text
  have present : ∃ element ∈ elements text, element.name = "div" ∧ element.extent = .crossed ∧
      element.contentRange = ⟨9,58⟩ ∧ element.innerText text = "é '</div>' b" := by decide +kernel
  obtain ⟨element,member,named,extent,range,inner⟩ := present
  have found := innerText_own_tags member (by rw [named]; decide) (by rw [named]; decide)
  rw [range] at found
  exact ⟨element,member,named,extent,range,inner,found⟩

end AccessibleMarkup.Markup
