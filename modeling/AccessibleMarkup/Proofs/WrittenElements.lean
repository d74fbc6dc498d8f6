import AccessibleMarkup.Proofs.Blanking
import AccessibleMarkup.Proofs.TagPlaces

/-! Elements of the filtered text in the text as written. Brackets and names are never blanked in part:
they stand in the text as written where they are found, and a name ends there where it ends in the
filtered text, as every blanked range starts with a character that no name has. So an element can be
taken apart in the text as written, at the offsets found in the filtered text. -/
namespace AccessibleMarkup.Markup

open Text

def StartsRange (text : List Char) (offset : Nat) : Prop :=
  ∃ before c rest, text = before ++ c :: rest ∧ byteLength before = offset ∧ (c = '<' ∨ c = '\x7b')

theorem StartsRange.append {text : List Char} {offset : Nat} (starts : StartsRange text offset)
    (more : List Char) : StartsRange (text ++ more) offset := by
  obtain ⟨before,c,rest,rfl,place,first⟩ := starts
  exact ⟨before,c,rest ++ more,by simp,place,first⟩

theorem Delimiter.starting?_first (c : Char) (rest : List Char) (delimiter : Delimiter)
    (found : Delimiter.starting? (c :: rest) = some delimiter) : c = '<' ∨ c = '\x7b' := by
  unfold Delimiter.starting? at found
  split_ifs at found
  have firsts : ∀ delimiter ∈ Delimiter.all,
      delimiter.opening.head? = some '<' ∨ delimiter.opening.head? = some '\x7b' := by decide
  have written := List.find?_some found
  have first := firsts delimiter (List.mem_of_find?_eq_some found)
  cases opening : delimiter.opening with
  | nil => simp [opening] at first
  | cons d more =>
    rw [opening,List.isPrefixOf,Bool.and_eq_true,beq_iff_eq] at written
    rw [opening,written.1] at first
    simpa using first

theorem statementRangesFrom_starts (phase : StatementPhase) (read text : List Char)
    (pending : ∀ start skip closing, phase = .inside start skip closing → StartsRange read start)
    (range : ByteRange) (member : range ∈ statementRangesFrom phase (byteLength read) text) :
    StartsRange (read ++ text) range.start := by
  induction text generalizing phase read with
  | nil =>
    cases phase with
    | outside skip => simp [statementRangesFrom] at member
    | inside start skip closing =>
      obtain rfl := List.mem_singleton.mp member
      exact (pending start skip closing rfl).append []
  | cons c rest ih =>
    have size : byteLength read + c.utf8Size = byteLength (read ++ [c]) := by simp
    have whole : read ++ c :: rest = (read ++ [c]) ++ rest := by simp
    have further (next : StatementPhase)
        (kept : ∀ start skip closing, next = .inside start skip closing → StartsRange (read ++ [c]) start)
        (later : range ∈ statementRangesFrom next (byteLength (read ++ [c])) rest) :
        StartsRange (read ++ c :: rest) range.start := by
      rw [whole]
      exact ih next _ kept later
    rcases phase with (_ | skip) | ⟨start,_ | skip,closing⟩
    · rw [statementRangesFrom,size] at member
      split at member
      next delimiter found =>
        refine further _ ?_ member
        rintro start skip closing ⟨⟩
        exact ⟨read,c,[],rfl,rfl,Delimiter.starting?_first c rest delimiter found⟩
      next => exact further _ (by simp) member
    · rw [statementRangesFrom,size] at member
      exact further _ (by simp) member
    · have started := pending start 0 closing rfl
      rw [statementRangesFrom,size] at member
      split_ifs at member
      · rcases List.mem_cons.mp member with rfl | later
        · exact started.append _
        · exact further _ (by simp) later
      · refine further _ ?_ member
        rintro _ _ _ ⟨⟩
        exact started.append _
    · rw [statementRangesFrom,size] at member
      refine further _ ?_ member
      rintro _ _ _ ⟨⟩
      exact (pending start (skip + 1) closing rfl).append _

theorem Filter.ranges_start (filter : Filter) (source : List Char) (range : ByteRange)
    (member : range ∈ filter.ranges source) : StartsRange source range.start := by
  cases filter with
  | keep => simp [Filter.ranges] at member
  | controlFlow nameSpaces =>
    rcases List.mem_append.mp member with statement | control
    · exact statementRangesFrom_starts (.outside 0) [] source (by simp) range statement
    · obtain ⟨tag,found,rfl⟩ := List.mem_map.mp control
      obtain ⟨front,after,stands⟩ := lex_standsIn source tag (List.mem_filter.mp found).1
      obtain ⟨inner,before,parts,place⟩ := stands.ends.opens
      exact ⟨before,'<',inner ++ after,by rw [stands.parts,parts]; simp,place,Or.inl rfl⟩

theorem append_inj_of_byteLength {first second front rest : List Char} (same : first ++ second = front ++ rest)
    (size : byteLength first = byteLength front) : first = front ∧ second = rest := by
  obtain ⟨middle,rfl,rfl⟩ := append_of_byteLength_le same (Nat.le_of_eq size)
  have empty : middle = [] := by
    have length := length_le_byteLength middle
    rw [byteLength_append] at size
    exact List.eq_nil_of_length_eq_zero (by omega)
  subst empty
  exact ⟨by simp,rfl⟩

theorem Filter.shown_next (filter : Filter) (source front rest : List Char) (c : Char)
    (found : filter.apply source = front ++ c :: rest) (shown : c ≠ ' ' ∧ c ≠ '\n' ∧ c ≠ '\r') :
    ∃ before after, source = before ++ c :: after ∧ byteLength before = byteLength front ∧
      ∀ d, after.head? = some d → rest.head? = some d ∨ d = '<' ∨ d = '\x7b' := by
  rw [filter.apply_eq] at found
  obtain ⟨before,after,parts,rfl,rfl,kept⟩ := blankWhere_shown 0 source front rest c found shown.1
  have size := Char.utf8Size_pos c
  refine ⟨before,after,parts,(byteLength_blankWhere 0 before).symm,fun d head => ?_⟩
  obtain ⟨more,rfl⟩ : ∃ more, after = d :: more := by
    cases after with
    | nil => contradiction
    | cons e more => exact ⟨more,by rw [Option.some.inj head]⟩
  rw [Nat.zero_add] at kept ⊢
  by_cases covered : covers (filter.ranges source) (byteLength before + c.utf8Size) = true
  · -- The range that covers the character does not cover the one before it, so it starts here.
    right
    obtain ⟨range,member,inside⟩ := List.any_eq_true.mp covered
    obtain ⟨front,e,tail,same,place,first⟩ := filter.ranges_start source range member
    have outside : ¬ range.contains (byteLength before) = true := by
      intro inside
      have line := kept (List.any_eq_true.mpr ⟨range,member,inside⟩)
      exact line.elim shown.2.1 shown.2.2
    simp only [ByteRange.contains,Bool.and_eq_true,decide_eq_true_eq] at inside outside
    rw [parts] at same
    obtain ⟨middle,rfl,follows⟩ := append_of_byteLength_le same (by omega)
    cases middle with
    | nil => simp at place; omega
    | cons f middle =>
      obtain ⟨rfl,next⟩ := List.cons.inj follows
      rw [byteLength_append,byteLength_cons] at place
      have empty : middle = [] := by
        have length := length_le_byteLength middle
        exact List.eq_nil_of_length_eq_zero (by omega)
      subst empty
      rw [(List.cons.inj next).1]
      exact first
  · left
    rw [blankWhere,if_neg covered]
    rfl

theorem Filter.shown_name (filter : Filter) (source front chars rest : List Char) (nonempty : chars ≠ [])
    (found : filter.apply source = front ++ (chars ++ rest))
    (shown : ∀ c ∈ chars, c ≠ ' ' ∧ c ≠ '\n' ∧ c ≠ '\r')
    (ended : ∀ c, rest.head? = some c → isNameChar c = false) :
    ∃ before after, source = before ++ (chars ++ after) ∧ byteLength before = byteLength front ∧
      ∀ c, after.head? = some c → isNameChar c = false := by
  have blanked := filter.apply_eq source ▸ found
  obtain ⟨before,after,parts,rfl,_⟩ := blankWhere_shown_all 0 source front chars rest nonempty blanked
    fun c member => (shown c member).1
  refine ⟨before,after,parts,(byteLength_blankWhere 0 before).symm,fun d head => ?_⟩
  obtain ⟨init,last,rfl⟩ := (List.eq_nil_or_concat chars).resolve_left nonempty
  rw [List.concat_eq_append,List.append_assoc,← List.append_assoc,List.singleton_append] at found
  rw [List.concat_eq_append,List.append_assoc,← List.append_assoc,List.singleton_append] at parts
  obtain ⟨beginning,following,same,size,next⟩ := filter.shown_next source _ rest last found
    (shown last (by simp))
  rw [parts] at same
  rw [byteLength_append,byteLength_blankWhere] at size
  obtain ⟨_,tail⟩ := append_inj_of_byteLength same (by rw [byteLength_append,size])
  obtain ⟨_,rfl⟩ := List.cons.inj tail
  rcases next d head with kept | rfl | rfl
  · exact ended d kept
  · rfl
  · rfl

def Boundary (text : List Char) (offset : Nat) : Prop :=
  ∃ first second, text = first ++ second ∧ byteLength first = offset

theorem boundary_length (text : List Char) : Boundary text (byteLength text) := ⟨text,[],by simp,rfl⟩

theorem Filter.boundary_of_shown (filter : Filter) (source front rest : List Char) (c : Char)
    (found : filter.apply source = front ++ c :: rest) (shown : c ≠ ' ') :
    Boundary source (byteLength front) ∧ Boundary source (byteLength front + c.utf8Size) := by
  rw [filter.apply_eq] at found
  obtain ⟨before,after,rfl,rfl,_⟩ := blankWhere_shown 0 source front rest c found shown
  rw [byteLength_blankWhere]
  exact ⟨⟨before,c :: after,rfl,rfl⟩,⟨before ++ [c],after,by simp,by simp⟩⟩

theorem Filter.boundary_tag (filter : Filter) (source : List Char) (tag : Tag)
    (member : tag ∈ lex (filter.apply source)) :
    Boundary source tag.start ∧ Boundary source tag.stop := by
  obtain ⟨read,after,stands⟩ := lex_standsIn _ tag member
  obtain ⟨inner,before,opens,place⟩ := stands.ends.opens
  have parts := stands.parts
  constructor
  · rw [opens,List.append_assoc,List.cons_append] at parts
    rw [← place]
    exact (filter.boundary_of_shown source _ _ '<' parts (by decide)).1
  · rw [stands.ends.stop]
    cases terminated : tag.terminated with
    | false =>
      rw [stands.cut terminated,List.append_nil] at parts
      rw [← parts,Filter.byteLength_apply]
      exact boundary_length source
    | true =>
      obtain ⟨front,rfl⟩ := stands.ends.bracket terminated
      rw [List.append_assoc,List.singleton_append] at parts
      rw [byteLength_append]
      exact (filter.boundary_of_shown source _ _ '>' parts (by decide)).2

/-- The parts of an element in a text: the name in its opening tag, the rest of that tag, and what
follows in the element. -/
structure Node.PartsIn (source : List Char) (node : Node) (before name inner body after : List Char) :
    Prop where
  parts : source = before ++ ('<' :: (name ++ (inner ++ body)) ++ after)
  start : byteLength before = node.start
  named : asciiLower (String.ofList name) = node.name
  written : ∀ c ∈ name, isNameChar c = true
  ended : ∀ c, (inner ++ (body ++ after)).head? = some c → isNameChar c = false
  openStop : node.openStop = node.start + 1 + byteLength name + byteLength inner
  stop : node.stop = node.openStop + byteLength body

/-- The parts of what follows the opening tag of an element that a closing tag ends: the content, the
name in the closing tag and the rest of that tag. -/
structure Node.ClosedIn (node : Node) (body after content name tail : List Char) : Prop where
  parts : body = content ++ '<' :: '/' :: (name ++ tail)
  closeStart : node.closeStart = node.openStop + byteLength content
  named : asciiLower (String.ofList name) = node.name
  written : ∀ c ∈ name, isNameChar c = true
  ended : ∀ c, (tail ++ after).head? = some c → isNameChar c = false

theorem not_isNameChar_space {c : Char} (name : isNameChar c = true) : c ≠ ' ' ∧ c ≠ '\n' ∧ c ≠ '\r' := by
  refine ⟨?_,?_,?_⟩ <;> rintro rfl <;> exact absurd name (by decide)

variable {filter : Filter} {source : List Char} {node : Node}

theorem Filter.boundary_node (member : node ∈ outlineNodes (filter.apply source)) :
    Boundary source node.openStop ∧ Boundary source node.stop := by
  have opened : Boundary source node.openStop := by
    obtain ⟨tag,lexed,_,same⟩ := exists_openingTag member
    simp only [Tag.head,Node.head,Prod.mk.injEq] at same
    rw [← same.2.2]
    exact (filter.boundary_tag source tag lexed).2
  refine ⟨opened,?_⟩
  cases outlineNodes_endsBy _ node member with
  | closing tag found _ _ _ stop =>
    rw [stop]
    exact (filter.boundary_tag source tag found).2
  | before tag found _ _ stop =>
    rw [stop]
    exact (filter.boundary_tag source tag found).1
  | opening _ _ stop => rwa [stop]
  | atEnd _ _ stop =>
    rw [stop,Filter.byteLength_apply]
    exact boundary_length source

theorem Filter.exists_partsIn (member : node ∈ outlineNodes (filter.apply source)) :
    ∃ before name inner body after, node.PartsIn source before name inner body after := by
  obtain ⟨front,name,_,_,written⟩ := node.exists_writtenIn _ member
  obtain ⟨i,found⟩ := List.mem_iff_getElem?.mp member
  obtain ⟨_,opens,closes,_⟩ := (outlineNodes_forest _).spans i node found
  have place : filter.apply source = front ++ (('<' :: name) ++ _) := written.parts
  have shown : ∀ c ∈ '<' :: name, c ≠ ' ' ∧ c ≠ '\n' ∧ c ≠ '\r' := by
    intro c inside
    rcases List.mem_cons.mp inside with rfl | inside
    · decide
    · exact not_isNameChar_space (written.tag.written c inside)
  obtain ⟨before,rest,parts,size,ended⟩ := filter.shown_name source front ('<' :: name) _ (by simp) place
    shown written.tag.named
  obtain ⟨⟨opening,_,first,openStop⟩,⟨whole,after,second,stop⟩⟩ := filter.boundary_node member
  have length := written.openStop
  have start := written.start
  rw [parts,← List.append_assoc] at first second
  obtain ⟨inner,rfl,rfl⟩ := append_of_byteLength_le first (by simp; grind)
  obtain ⟨more,rfl,tail⟩ := append_of_byteLength_le second (by simp at openStop ⊢; grind)
  obtain ⟨body,rfl,rfl⟩ := append_of_byteLength_le tail (by simp at openStop stop; grind)
  simp only [byteLength_append,byteLength_cons] at openStop stop
  exact ⟨before,name,inner,body,after,by rw [parts]; simp,by grind,written.named.symm,
    written.tag.written,by simpa using ended,by grind,by grind⟩

theorem Filter.exists_closedIn (member : node ∈ outlineNodes (filter.apply source))
    (closed : node.extent = .closed) {before name inner body after : List Char}
    (written : node.PartsIn source before name inner body after) :
    ∃ content closing tail, node.ClosedIn body after content closing tail := by
  obtain ⟨i,found⟩ := List.mem_iff_getElem?.mp member
  obtain ⟨_,opens,_⟩ := (outlineNodes_forest _).spans i node found
  cases outlineNodes_endsBy _ node member with
  | closing tag found kind named closeStart stop =>
    obtain ⟨read,rest,stands⟩ := lex_standsIn _ tag found
    obtain ⟨_,chars,tail,⟨front,rfl,place⟩,closing,same,cut⟩ := stands.ends.closing kind
    have stopped := stands.ends.stop
    obtain ⟨rfl,letters,last⟩ := closing
    have shown : ∀ c ∈ '<' :: '/' :: chars, c ≠ ' ' ∧ c ≠ '\n' ∧ c ≠ '\r' := by
      intro c inside
      rcases List.mem_cons.mp inside with rfl | inside
      · decide
      · rcases List.mem_cons.mp inside with rfl | inside
        · decide
        · exact not_isNameChar_space (letters c inside)
    have ended : ∀ c, (tail ++ rest).head? = some c → isNameChar c = false := by
      intro c head
      cases tail with
      | nil =>
        rw [stands.cut (cut rfl)] at head
        exact nomatch head
      | cons d tail => exact last c head
    have whole : filter.apply source = front ++ (('<' :: '/' :: chars) ++ (tail ++ rest)) := by
      rw [stands.parts]
      simp
    obtain ⟨earlier,later,parts,size,ends⟩ := filter.shown_name source front _ _ (by simp) whole shown ended
    have opened := written.openStop
    have reached := written.stop
    have start := written.start
    have cuts : (before ++ '<' :: (name ++ inner)) ++ (body ++ after) =
        earlier ++ (('<' :: '/' :: chars) ++ later) := by
      rw [← parts,written.parts]
      simp
    obtain ⟨content,rfl,follows⟩ := append_of_byteLength_le cuts (by simp; grind)
    rw [← List.append_assoc] at follows
    simp only [byteLength_append,byteLength_cons] at size stopped
    obtain ⟨rest,rfl,rfl⟩ := append_of_byteLength_le follows.symm (by simp; grind)
    exact ⟨content,chars,rest,by simp,by grind,by rw [← named,same],letters,ends⟩
  | before _ _ open_ => exact absurd closed open_
  | opening open_ => exact absurd closed open_
  | atEnd open_ => exact absurd closed open_

end AccessibleMarkup.Markup
