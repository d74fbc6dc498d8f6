import AccessibleMarkup.Document.Basic
import AccessibleMarkup.Proofs.FilteredText
import AccessibleMarkup.Proofs.LexerPhases
import AccessibleMarkup.Proofs.SharedAttributes
import Mathlib.Order.WellFounded

/-! Control tags that a filter leaves behind. The tags to blank are looked for in the text as written, and
elements in the filtered text. The lexer reads both texts alike as long as every statement leaves it where a
blank would. So an element in one of the name spaces is left only behind a statement that does not, such as
one that opens a comment, and there the text as written has no tag. -/
namespace AccessibleMarkup.Markup

open Text

/-- Whether the lexer comes out of a range as if nothing but blanks stood in it. -/
def passesOver (text : List Char) (range : ByteRange) : Bool :=
  (splitAt? text range.start).any fun front => (splitAt? text range.stop).any fun whole =>
    phaseAfter whole.1 = (phaseAfter front.1).afterBlank

theorem passesOver_stop {text : List Char} {range : ByteRange} (passes : passesOver text range = true) :
    Boundary text range.stop := by
  obtain ⟨_,_,found⟩ := (Option.any_eq_true ..).mp passes
  obtain ⟨⟨whole,after⟩,split,_⟩ := (Option.any_eq_true ..).mp found
  obtain ⟨parts,size⟩ := splitAt?_some _ _ _ _ split
  exact ⟨whole,after,parts,size⟩

theorem passesOver_phase {text front rest whole after : List Char} {range : ByteRange}
    (passes : passesOver text range = true) (first : text = front ++ rest) (start : byteLength front = range.start)
    (second : text = whole ++ after) (stop : byteLength whole = range.stop) :
    phaseAfter whole = (phaseAfter front).afterBlank := by
  have before : splitAt? text range.start = some (front,rest) := by rw [first,← start,splitAt?_append]
  have behind : splitAt? text range.stop = some (whole,after) := by rw [second,← stop,splitAt?_append]
  simpa [passesOver,before,behind] using passes

theorem statementRangesFrom_inOrder (phase : StatementPhase) (offset : Nat) (text : List Char) :
    ((statementRangesFrom phase offset text).Pairwise fun first second => first.stop ≤ second.start) ∧
      ∀ range ∈ statementRangesFrom phase offset text,
        match phase with
        | .outside skip => offset + byteLength (text.take skip) ≤ range.start
        | .inside start _ _ => range.start = start ∨ offset ≤ range.start := by
  -- Outside a range the next one starts behind what is still to be skipped; inside, it is the open one.
  induction text generalizing phase offset with
  | nil =>
    cases phase with
    | outside skip => exact ⟨.nil,by simp [statementRangesFrom]⟩
    | inside start skip closing => exact ⟨List.pairwise_singleton _ _,by simp [statementRangesFrom]⟩
  | cons c rest ih =>
    rcases phase with (_ | skip) | ⟨start,_ | skip,closing⟩
    · rw [statementRangesFrom]
      split
      next delimiter found =>
        obtain ⟨sorted,places⟩ := ih (.inside offset (delimiter.opening.length - 1) delimiter.closing)
          (offset + c.utf8Size)
        refine ⟨sorted,fun range member => ?_⟩
        have place := places range member
        grind
      next =>
        obtain ⟨sorted,places⟩ := ih (.outside 0) (offset + c.utf8Size)
        refine ⟨sorted,fun range member => ?_⟩
        have place := places range member
        grind
    · rw [statementRangesFrom]
      obtain ⟨sorted,places⟩ := ih (.outside skip) (offset + c.utf8Size)
      refine ⟨sorted,fun range member => ?_⟩
      have place := places range member
      grind
    · rw [statementRangesFrom]
      split_ifs with closes
      · obtain ⟨sorted,places⟩ := ih (.outside (closing.length - 1)) (offset + c.utf8Size)
        have room : byteLength closing ≤ c.utf8Size + byteLength (rest.take (closing.length - 1)) := by
          obtain ⟨tail,same⟩ := List.isPrefixOf_iff_prefix.mp closes
          cases closing with
          | nil => simp
          | cons d closing =>
            obtain ⟨rfl,rfl⟩ := List.cons.inj same
            simp
        refine ⟨List.pairwise_cons.mpr ⟨fun range member => ?_,sorted⟩,fun range member => ?_⟩
        · have place := places range member
          dsimp only at place ⊢
          omega
        · rcases List.mem_cons.mp member with rfl | later
          · exact Or.inl rfl
          · have place := places range later
            dsimp only at place
            exact Or.inr (by omega)
      · obtain ⟨sorted,places⟩ := ih (.inside start 0 closing) (offset + c.utf8Size)
        refine ⟨sorted,fun range member => (places range member).imp_right fun later => by omega⟩
    · rw [statementRangesFrom]
      obtain ⟨sorted,places⟩ := ih (.inside start skip closing) (offset + c.utf8Size)
      exact ⟨sorted,fun range member => (places range member).imp_right fun later => by omega⟩

theorem blankWhere_blank {covered : Nat → Bool} (offset : Nat) (text : List Char)
    (inside : ∀ place, offset ≤ place → place < offset + byteLength text → covered place = true) :
    ∀ c ∈ blankWhere covered offset text, IsBlankChar c := by
  induction text generalizing offset with
  | nil => simp [blankWhere]
  | cons d rest ih =>
    have size := Char.utf8Size_pos d
    rw [byteLength_cons] at inside
    intro c member
    rw [blankWhere,if_pos (inside offset (Nat.le_refl _) (by omega)),List.mem_append] at member
    rcases member with here | later
    · unfold blankChar at here
      split_ifs at here with kept
      · rw [List.mem_singleton.mp here]
        exact Or.inr (by simpa using kept)
      · exact Or.inl (List.eq_of_mem_replicate here)
    · exact ih _ (fun place after before => inside place (by omega) (by omega)) c later

theorem run_blankWhere {covered : Nat → Bool} {phase : LexPhase} (regular : phase.Regular) (offset : Nat)
    (text : List Char) (nonempty : text ≠ [])
    (inside : ∀ place, offset ≤ place → place < offset + byteLength text → covered place = true) :
    (phase.run offset (blankWhere covered offset text)).2 = phase.afterBlank := by
  have blank := blankWhere_blank offset text inside
  have size := @byteLength_blankWhere covered offset text
  cases blanks : blankWhere covered offset text with
  | nil =>
    rw [blanks,byteLength_nil] at size
    have length := length_le_byteLength text
    exact absurd (List.eq_nil_of_length_eq_zero (by omega)) nonempty
  | cons c rest =>
    rw [blanks] at blank
    rw [regular.run_blanks offset c rest blank]

theorem foreign_of_inNameSpaces {nameSpaces : List String} {name : String}
    (named : inNameSpaces nameSpaces name = true) :
    RawElement.ofName? name = none ∧ ∀ element : RawElement, element.endedBy name = false := by
  have colon : ':' ∈ (asciiLower name).toList := by
    obtain ⟨space,found,_⟩ := (Option.any_eq_true ..).mp named
    simp only [nameSpace?] at found
    split_ifs at found with inside
    rw [asciiLower,String.toList_ofList]
    exact List.mem_map.mpr ⟨':',by simpa using inside,rfl⟩
  have other (word : String) (plain : ':' ∉ word.toList) : asciiLower name ≠ word := by
    rintro rfl
    exact plain colon
  exact foreign_of_lower (other _ (by decide)) (other _ (by decide))

theorem inNameSpaces_of_lower {nameSpaces : List String} {space name rest : String} (known : space ∈ nameSpaces)
    (plain : ':' ∉ space.toList) (named : asciiLower name = asciiLower space ++ ":" ++ rest) :
    inNameSpaces nameSpaces name = true := by
  have chars : name.toList.map Char.toLower = space.toList.map Char.toLower ++ ':' :: rest.toList := by
    have same := congrArg String.toList named
    simpa [asciiLower] using same
  obtain ⟨first,others,parts,lower,colon⟩ := List.map_eq_append_iff.mp chars
  obtain ⟨c,tail,rfl,isColon,_⟩ := List.map_eq_cons_iff.mp colon
  have only (d : Char) (same : d.toLower = ':') : d = ':' := by
    rcases toLower_cases d with kept | ⟨letter,_⟩
    · rw [← kept,same]
    · rw [same] at letter
      exact absurd letter (by decide)
  obtain rfl := only c isColon
  have before : ∀ d ∈ first, (d != ':') = true := by
    intro d member
    rw [bne_iff_ne]
    rintro rfl
    have shared : ':' ∈ space.toList.map Char.toLower := by
      rw [← lower]
      exact List.mem_map.mpr ⟨':',member,rfl⟩
    obtain ⟨e,inside,same⟩ := List.mem_map.mp shared
    exact plain (only e same ▸ inside)
  have found : nameSpace? name = some (String.ofList first) := by
    simp [nameSpace?,parts,List.takeWhile_append_of_pos before]
  rw [inNameSpaces,found,Option.any_some,oneOfIgnoringCase,List.any_eq_true]
  refine ⟨space,known,?_⟩
  rw [sameIgnoringCase,beq_iff_eq,asciiLower,asciiLower,String.toList_ofList,lower]

section

variable {nameSpaces : List String} {text : List Char}

theorem mem_ranges {range : ByteRange} (member : range ∈ (Filter.controlFlow nameSpaces).ranges text) :
    range ∈ statementRanges text ∨
      ∃ tag ∈ lex text, inNameSpaces nameSpaces tag.name = true ∧ range = tag.range := by
  rcases List.mem_append.mp member with statement | control
  · exact Or.inl statement
  · obtain ⟨tag,found,rfl⟩ := List.mem_map.mp control
    obtain ⟨lexed,kind⟩ := List.mem_filter.mp found
    rw [Bool.and_eq_true] at kind
    exact Or.inr ⟨tag,lexed,kind.2,rfl⟩

theorem tag_stop_le {range : ByteRange} {tag : Tag} (statement : range ∈ statementRanges text)
    (passes : passesOver text range = true) (lexed : tag ∈ lex text) (starts : range.start < tag.start)
    (ends : tag.start < range.stop) : tag.stop ≤ range.stop := by
  obtain ⟨front,c,rest,first,start,_⟩ :=
    (Filter.controlFlow []).ranges_start text range (List.mem_append_left _ statement)
  obtain ⟨whole,after,second,stop⟩ := passesOver_stop passes
  by_contra beyond
  rw [second] at lexed
  have pending := pending_inside lexed (by omega) (by omega)
  rw [passesOver_phase passes first start second stop] at pending
  rcases (phaseAfter front).afterBlank_start? with none | kept
  · rw [none] at pending
    contradiction
  · have := (phaseAfter_start? (kept ▸ pending)).1
    omega

theorem statement_stop_le {range : ByteRange} {tag : Tag} (statement : range ∈ statementRanges text)
    (passes : passesOver text range = true) (within : range.stop < byteLength text) (lexed : tag ∈ lex text)
    (starts : tag.start < range.start) (ends : range.start < tag.stop) : range.stop ≤ tag.stop := by
  obtain ⟨front,c,rest,first,start,bracket⟩ :=
    (Filter.controlFlow []).ranges_start text range (List.mem_append_left _ statement)
  obtain ⟨whole,after,second,stop⟩ := passesOver_stop passes
  have size := Char.utf8Size_pos c
  by_contra beyond
  have lexedFirst : tag ∈ lex (front ++ c :: rest) := first ▸ lexed
  have lexedSecond : tag ∈ lex (whole ++ after) := second ▸ lexed
  have pending := pending_inside lexedFirst (by omega) (by omega)
  have found := mem_lexFrom_of_open lexedFirst (by omega)
  have further := mem_lexFrom_next found (by rcases bracket with rfl | rfl <;> decide)
  have goesOn := (lexFrom_place _ _ _ tag further).1.resolve_right (by omega)
  have turn := (phaseAfter front).step_turn (byteLength front) c
  have open_ := turn.blank_goes_on bracket pending (by omega) goesOn
  rw [← passesOver_phase passes first start second stop] at open_
  have more : after ≠ [] := by
    rintro rfl
    rw [second,List.append_nil] at within
    omega
  have := (phaseAfter_start? open_).2 tag (mem_run_of_ended lexedSecond (by omega) more)
  omega

theorem range_stop_le {first second : ByteRange}
    (passes : ∀ range ∈ statementRanges text, range.stop ≤ second.stop → passesOver text range = true)
    (within : second.stop < byteLength text) (one : first ∈ (Filter.controlFlow nameSpaces).ranges text)
    (other : second ∈ (Filter.controlFlow nameSpaces).ranges text) (starts : first.start < second.start)
    (ends : second.start < first.stop) : second.stop ≤ first.stop := by
  rcases mem_ranges one with statement | ⟨tag,lexed,_,rfl⟩ <;>
    rcases mem_ranges other with later | ⟨inner,found,_,rfl⟩
  · have sorted := (statementRangesFrom_inOrder (.outside 0) 0 text).1
    rcases eq_or_before_of_pairwise sorted statement later with rfl | before | before <;> omega
  · rcases Nat.le_total inner.range.stop first.stop with reached | beyond
    · exact reached
    · exact tag_stop_le statement (passes first statement beyond) found starts ends
  · exact statement_stop_le later (passes second later (Nat.le_refl _)) within lexed starts ends
  · have sorted := (lex_inOrder text).pairwise
    have nonempty := (lex_inOrder text).between inner found
    simp only [Tag.range] at starts ends ⊢
    rcases eq_or_before_of_pairwise sorted lexed found with rfl | before | before <;> omega

theorem exists_first_covering {ranges : List ByteRange} {place : Nat} (covered : covers ranges place = true) :
    ∃ range ∈ ranges, range.start ≤ place ∧ place < range.stop ∧
      ∀ other ∈ ranges, other.start ≤ place → place < other.stop → range.start ≤ other.start := by
  obtain ⟨range,⟨member,starts,stops⟩,least⟩ := (measure ByteRange.start).wf.has_min
    {range | range ∈ ranges ∧ range.start ≤ place ∧ place < range.stop} ((covers_iff _ _).mp covered)
  exact ⟨range,member,starts,stops,fun other listed before behind =>
    Nat.le_of_not_lt (least other ⟨listed,before,behind⟩)⟩

theorem eq_of_boundary {front after : List Char} {c : Char} {offset : Nat}
    (cut : Boundary (front ++ c :: after) offset) (past : byteLength front < offset)
    (reached : offset ≤ byteLength front + c.utf8Size) : offset = byteLength front + c.utf8Size := by
  obtain ⟨first,second,parts,rfl⟩ := cut
  obtain ⟨middle,rfl,rest⟩ := append_of_byteLength_le parts (Nat.le_of_lt past)
  cases middle with
  | nil => simp at past
  | cons d middle =>
    obtain ⟨rfl,_⟩ := List.cons.inj rest
    grind

theorem phaseAfter_range {range : ByteRange} (member : range ∈ (Filter.controlFlow nameSpaces).ranges text)
    (passes : range ∈ statementRanges text → passesOver text range = true)
    {front rest whole after : List Char} (first : text = front ++ rest) (start : byteLength front = range.start)
    (second : text = whole ++ after) (stop : byteLength whole = range.stop) (more : after ≠ []) :
    phaseAfter whole = (phaseAfter front).afterBlank := by
  rcases mem_ranges member with statement | ⟨tag,lexed,named,rfl⟩
  · exact passesOver_phase (passes statement) first start second stop
  · obtain ⟨plain,foreign⟩ := foreign_of_inNameSpaces named
    obtain ⟨_,tail,stands⟩ := lex_standsIn text tag lexed
    obtain ⟨inner,left,opens,place⟩ := stands.ends.opens
    have bracket : text = left ++ '<' :: (inner ++ tail) := by
      rw [stands.parts,opens]
      simp
    obtain ⟨rfl,rfl⟩ := append_inj_of_byteLength (first.symm.trans bracket) (by rw [start,place]; rfl)
    rw [afterBlank_of_starts (first ▸ lexed) start.symm foreign]
    exact phaseAfter_tag (second ▸ lexed) stop.symm more plain

theorem range_boundary {range : ByteRange} (member : range ∈ (Filter.controlFlow nameSpaces).ranges text)
    (passes : range ∈ statementRanges text → passesOver text range = true) : Boundary text range.stop := by
  rcases mem_ranges member with statement | ⟨tag,lexed,_,rfl⟩
  · exact passesOver_stop (passes statement)
  · exact (Filter.keep.boundary_tag text tag lexed).2

theorem exists_last_range {front after : List Char} {c : Char} (parts : text = front ++ c :: after)
    (more : after ≠ [])
    (passes : ∀ range ∈ statementRanges text, range.stop ≤ byteLength front + c.utf8Size →
      passesOver text range = true)
    (whole : ∀ range ∈ (Filter.controlFlow nameSpaces).ranges text,
      ¬ range.Splits (byteLength front + c.utf8Size))
    (covered : covers ((Filter.controlFlow nameSpaces).ranges text) (byteLength front) = true) :
    ∃ range ∈ (Filter.controlFlow nameSpaces).ranges text, range.start ≤ byteLength front ∧
      range.stop = byteLength front + c.utf8Size ∧
      ∀ other ∈ (Filter.controlFlow nameSpaces).ranges text, ¬ other.Splits range.start := by
  have size := Char.utf8Size_pos c
  obtain ⟨range,member,starts,stops,least⟩ := exists_first_covering covered
  have ended {other : ByteRange} (listed : other ∈ (Filter.controlFlow nameSpaces).ranges text)
      (before : other.start ≤ byteLength front) : other.stop ≤ byteLength front + c.utf8Size := by
    refine Nat.le_of_not_lt fun beyond => whole other listed ⟨?_,beyond⟩
    omega
  have reached := ended member starts
  have cut : Boundary (front ++ c :: after) range.stop := by
    rw [← parts]
    exact range_boundary member fun statement => passes range statement reached
  have stop := eq_of_boundary cut stops reached
  refine ⟨range,member,starts,stop,fun other listed split => ?_⟩
  have inner : range.stop ≤ other.stop := by
    refine range_stop_le (fun statement found within => passes statement found (by omega)) ?_ listed member
      split.1 split.2
    have length := length_le_byteLength after
    have nonempty := List.length_pos_iff.mpr more
    grind
  have first := least other listed (by have := split.1; omega) (by omega)
  have := split.1
  omega

/-- Where no range is split, and every statement before is passed over, the lexer stands in the filtered text
as in the text as written. -/
theorem phaseAfter_blankWhere (before after : List Char) (parts : text = before ++ after) (more : after ≠ [])
    (passes : ∀ range ∈ statementRanges text, range.stop ≤ byteLength before → passesOver text range = true)
    (whole : ∀ range ∈ (Filter.controlFlow nameSpaces).ranges text, ¬ range.Splits (byteLength before)) :
    phaseAfter (blankWhere (covers ((Filter.controlFlow nameSpaces).ranges text)) 0 before) =
      phaseAfter before := by
  induction size : byteLength before using Nat.strong_induction_on generalizing before after with
  | _ length ih =>
    subst size
    rcases List.eq_nil_or_concat before with rfl | ⟨front,c,rfl⟩
    · rfl
    have positive := Char.utf8Size_pos c
    rw [List.concat_eq_append] at *
    have size : byteLength (front ++ [c]) = byteLength front + c.utf8Size := by simp
    have split : text = front ++ c :: after := by rw [parts]; simp
    cases covered : covers ((Filter.controlFlow nameSpaces).ranges text) (byteLength front) with
    | false =>
      have same := ih _ (by omega) front (c :: after) split (by simp)
        (fun range statement within => passes range statement (by omega))
        (fun range member inside => by
          have here := (covers_iff _ _).mpr ⟨range,member,Nat.le_of_lt inside.1,inside.2⟩
          exact Bool.false_ne_true (covered.symm.trans here)) rfl
      rw [blankWhere_append,Nat.zero_add,blankWhere,covered,phaseAfter_concat]
      exact (phaseAfter_concat _ c).trans (by rw [same,byteLength_blankWhere])
    | true =>
      -- A range ends here. The lexer comes to its start and out of it alike in both texts.
      obtain ⟨range,member,starts,stop,unsplit⟩ :=
        exists_last_range split more (fun range statement within => passes range statement (by omega))
          (fun range member inside => whole range member (size ▸ inside)) covered
      obtain ⟨left,d,right,cut,place,_⟩ := Filter.ranges_start _ _ _ member
      obtain ⟨middle,inner,_⟩ := append_of_byteLength_le (cut.symm.trans parts) (by omega)
      have same := ih _ (by omega) left (d :: right) cut (by simp)
        (fun range statement within => passes range statement (by omega))
        (fun other listed => place ▸ unsplit other listed) rfl
      have out := phaseAfter_range member (fun statement => passes range statement (by omega)) cut place parts
        (by omega) more
      have length : byteLength (front ++ [c]) = byteLength left + byteLength middle := by
        rw [inner,byteLength_append]
      have nonempty : middle ≠ [] := by
        rintro rfl
        grind
      rw [out,inner,blankWhere_append,Nat.zero_add,phaseAfter_append,same,byteLength_blankWhere]
      exact run_blankWhere (phaseAfter_regular left) _ middle nonempty fun place after before =>
        (covers_iff _ _).mpr ⟨range,member,by omega,by omega⟩

theorem not_ready_of_shown {before name rest : List Char} (parts : text = before ++ '<' :: (name ++ rest))
    (letter : ∃ c more, name = c :: more ∧ c.isAlpha = true) (written : ∀ c ∈ name, isNameChar c = true)
    (ended : ∀ c, rest.head? = some c → isNameChar c = false)
    (named : inNameSpaces nameSpaces (String.ofList name) = true)
    (shown : ¬ covers ((Filter.controlFlow nameSpaces).ranges text) (byteLength before) = true) :
    ¬ Ready before := by
  intro ready
  obtain ⟨inner,after,rfl,tag⟩ := OpeningTag.exists_inner name rest letter written ended
  obtain ⟨selfClosing,terminated,more,lexed⟩ := tag.lexFrom_eq (byteLength before)
  have whole := ready.lex_eq (name ++ (inner ++ after))
  rw [lexed,← parts] at whole
  refine shown ((covers_iff _ _).mpr ⟨_,List.mem_append_right _ (List.mem_map.mpr ⟨_,List.mem_filter.mpr
    ⟨by rw [whole]; exact List.mem_append_right _ List.mem_cons_self,?_⟩,rfl⟩),?_⟩)
  · simpa [Tag.isMarkup] using named
  · exact ⟨Nat.le_refl _,by simp only [Tag.range]; omega⟩

end

/-- An element in one of the name spaces is left only where the text as written has no opening tag, behind a
statement that the lexer does not pass over. -/
theorem controlFlow_leaves_hidden (nameSpaces : List String) (text : List Char) (element : Element)
    (member : element ∈ (Document.read text (Filter.controlFlow nameSpaces)).elements) (space rest : String)
    (known : space ∈ nameSpaces) (plain : ':' ∉ space.toList)
    (named : element.name = asciiLower space ++ ":" ++ rest) :
    (∀ tag ∈ lex text, tag.isOpening = true → tag.start ≠ element.start) ∧
      ∃ range ∈ statementRanges text, range.stop ≤ element.start ∧ passesOver text range = false := by
  obtain ⟨node,found,rfl⟩ := List.mem_map.mp member
  obtain ⟨front,name,inner,after,written⟩ := node.exists_writtenIn _ found
  have shown : ∀ c ∈ '<' :: name, c ≠ ' ' ∧ c ≠ '\n' ∧ c ≠ '\r' := by
    intro c inside
    rcases List.mem_cons.mp inside with rfl | inside
    · decide
    · exact not_isNameChar_space (written.tag.written c inside)
  obtain ⟨before,tail,parts,size,ended⟩ := Filter.shown_name _ text front ('<' :: name) _ (by simp)
    written.parts shown written.tag.named
  have blanked := written.parts
  rw [Filter.apply_toMarkupFilter,Filter.apply_eq] at blanked
  obtain ⟨_,_,cut,rfl,_,kept⟩ := blankWhere_shown 0 text front _ '<' blanked (by decide)
  rw [byteLength_blankWhere] at size
  obtain ⟨rfl,_⟩ := append_inj_of_byteLength (parts.symm.trans cut) size
  have start : byteLength before = node.start := by rw [← written.start,byteLength_blankWhere]
  have spelled := inNameSpaces_of_lower known plain (written.named.symm.trans named)
  have hidden : ¬ Ready before := not_ready_of_shown parts written.tag.letter written.tag.written ended spelled
    fun covered => absurd (kept (by rwa [Nat.zero_add])) (by decide)
  constructor
  · intro tag lexed opening same
    obtain ⟨first,_,_,_,split,ready,place,_⟩ := lex_opening text tag lexed opening
    obtain ⟨rfl,_⟩ := append_inj_of_byteLength (parts.symm.trans split) (start.trans (same.symm.trans place.symm))
    exact hidden ready
  · -- Were all statements up to the element passed over, a tag might start there in the text as written too.
    by_contra none
    have passes : ∀ range ∈ statementRanges text, range.stop ≤ byteLength before →
        passesOver text range = true := by
      intro range statement within
      by_contra fails
      exact none ⟨range,statement,within.trans_eq start,by simpa using fails⟩
    have whole : ∀ range ∈ (Filter.controlFlow nameSpaces).ranges text, ¬ range.Splits (byteLength before) := by
      intro range blanked
      have unsplit := (Filter.not_splits_shown written.parts rfl blanked).1
      rwa [byteLength_blankWhere] at unsplit
    have alike := phaseAfter_blankWhere before _ parts (by simp) passes whole
    have ready := written.ready
    unfold Ready at ready
    rw [byteLength_blankWhere,← phaseAfter,alike] at ready
    exact hidden ready

theorem controlFlow_leaves_hidden_comment :
    let text := "\x7b% <!-- %\x7d<c:if></c:if>".toList
    ∃ element ∈ (Document.read text (Filter.controlFlow Filter.defaultNameSpaces)).elements,
      element.name = asciiLower "c" ++ ":" ++ "if" ∧
      (∀ tag ∈ lex text, tag.isOpening = true → tag.start ≠ element.start) ∧
      ∃ range ∈ statementRanges text, range.stop ≤ element.start ∧ passesOver text range = false := by
  intro text
  have found : ∃ element ∈ (Document.read text (Filter.controlFlow Filter.defaultNameSpaces)).elements,
      element.name = asciiLower "c" ++ ":" ++ "if" := by decide +kernel
  obtain ⟨element,member,named⟩ := found
  exact ⟨element,member,named,controlFlow_leaves_hidden Filter.defaultNameSpaces text element member "c" "if"
    (by decide) (by decide) named⟩

end AccessibleMarkup.Markup
