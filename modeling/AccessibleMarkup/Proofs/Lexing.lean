import AccessibleMarkup.Markup.Tag.Lexer
import Mathlib.Tactic.SplitIfs

/-! What one step of the tag lexer can do, and what follows for a whole text: reading in two parts
is reading in one, and the tags of a text stand in order, one after the other. -/
namespace AccessibleMarkup.Markup

open Text

theorem TagInterior.endsAt_bracket {interior : TagInterior} {c : Char} (ended : interior.endsAt c = true) :
    c = '>' := by
  cases interior <;> simp_all [endsAt]

theorem MarkupInterior.next?_none {interior : MarkupInterior} {c : Char} (ended : interior.next? c = none) :
    c = '>' := by
  unfold next? at ended
  grind

namespace LexPhase

/-- The character belongs to plain text. -/
inductive ReadsText (c : Char) : LexPhase → Prop
  | text : ReadsText c .text
  | bracket (start : Nat) (letter : c.isAlpha = false) (slash : c ≠ '/') (bang : c ≠ '!') (question : c ≠ '?') :
      ReadsText c (.bracket start)
  | bracketSlash (start : Nat) (letter : c.isAlpha = false) : ReadsText c (.bracketSlash start)

/-- The character belongs to the text of a raw element. -/
inductive ReadsRaw (c : Char) (element : RawElement) : LexPhase → Prop
  | raw : ReadsRaw c element (.raw element)
  | rawBracket (start : Nat) (slash : c ≠ '/') : ReadsRaw c element (.rawBracket element start)
  | rawName (start : Nat) (chars : List Char) (other : isNameChar c = false)
      (foreign : element.endedBy (nameOf chars) = false) : ReadsRaw c element (.rawName element start chars)

/-- The character stands behind the name of an opening tag. -/
inductive InOpening (c : Char) (start : Nat) : LexPhase → String → TagInterior → Prop
  | name (chars : List Char) (other : isNameChar c = false) :
      InOpening c start (.openingName start chars) (nameOf chars) (.plain false)
  | interior (name : String) (interior : TagInterior) :
      InOpening c start (.openingInterior start name interior) name interior

/-- The character stands behind the name of a closing tag. -/
inductive InClosing (c : Char) (start : Nat) : LexPhase → String → Prop
  | name (chars : List Char) (other : isNameChar c = false) :
      InClosing c start (.closingName start chars) (nameOf chars)
  | interior (name : String) : InClosing c start (.closingInterior start name) name
  | rawName (element : RawElement) (chars : List Char) (other : isNameChar c = false)
      (own : element.endedBy (nameOf chars) = true) :
      InClosing c start (.rawName element start chars) (nameOf chars)

/-- Everything that the character at an offset can do: the phase before it, the phase after it and the tag
that it ends. -/
inductive Turn (offset : Nat) (c : Char) : LexPhase → LexPhase → Option Tag → Prop
  | text {phase : LexPhase} (reads : ReadsText c phase) (other : c ≠ '<') : Turn offset c phase .text none
  | bracket {phase : LexPhase} (reads : ReadsText c phase) (bracket : c = '<') :
      Turn offset c phase (.bracket offset) none
  | openingStart (start : Nat) (letter : c.isAlpha = true) :
      Turn offset c (.bracket start) (.openingName start [c]) none
  | openingName (start : Nat) (chars : List Char) (named : isNameChar c = true) :
      Turn offset c (.openingName start chars) (.openingName start (c :: chars)) none
  | openingInterior {phase : LexPhase} {start : Nat} {name : String} {interior : TagInterior}
      (inside : InOpening c start phase name interior) (goesOn : interior.endsAt c = false) :
      Turn offset c phase (.openingInterior start name (interior.next c)) none
  | openingEnd {phase : LexPhase} {start : Nat} {name : String} {interior : TagInterior}
      (inside : InOpening c start phase name interior) (ends : interior.endsAt c = true) :
      Turn offset c phase (afterOpening name interior.slashed)
        (some ⟨.opening interior.slashed,name,start,offset + 1,true⟩)
  | slash (start : Nat) (slash : c = '/') : Turn offset c (.bracket start) (.bracketSlash start) none
  | closingStart (start : Nat) (letter : c.isAlpha = true) :
      Turn offset c (.bracketSlash start) (.closingName start [c]) none
  | closingName (start : Nat) (chars : List Char) (named : isNameChar c = true) :
      Turn offset c (.closingName start chars) (.closingName start (c :: chars)) none
  | closingInterior {phase : LexPhase} {start : Nat} {name : String} (inside : InClosing c start phase name)
      (goesOn : c ≠ '>') : Turn offset c phase (.closingInterior start name) none
  | closingEnd {phase : LexPhase} {start : Nat} {name : String} (inside : InClosing c start phase name)
      (ends : c = '>') : Turn offset c phase .text (some ⟨.closing,name,start,offset + 1,true⟩)
  | bang (start : Nat) (mark : c = '!') : Turn offset c (.bracket start) (.markup start .bang) none
  | question (start : Nat) (mark : c = '?') : Turn offset c (.bracket start) (.markup start .declaration) none
  | markup (start : Nat) {interior next : MarkupInterior} (goesOn : interior.next? c = some next) :
      Turn offset c (.markup start interior) (.markup start next) none
  | markupEnd (start : Nat) {interior : MarkupInterior} (ends : interior.next? c = none) :
      Turn offset c (.markup start interior) .text (some ⟨.markup,"",start,offset + 1,true⟩)
  | raw {phase : LexPhase} {element : RawElement} (reads : ReadsRaw c element phase) (other : c ≠ '<') :
      Turn offset c phase (.raw element) none
  | rawBracket {phase : LexPhase} {element : RawElement} (reads : ReadsRaw c element phase) (bracket : c = '<') :
      Turn offset c phase (.rawBracket element offset) none
  | rawSlash (element : RawElement) (start : Nat) (slash : c = '/') :
      Turn offset c (.rawBracket element start) (.rawName element start []) none
  | rawName (element : RawElement) (start : Nat) (chars : List Char) (named : isNameChar c = true) :
      Turn offset c (.rawName element start chars) (.rawName element start (c :: chars)) none

variable {offset : Nat} {c : Char} {phase next : LexPhase} {given : Option Tag} {tag : Tag}

theorem ReadsText.turn (reads : ReadsText c phase) : Turn offset c phase (readText offset c) none := by
  unfold readText
  split_ifs with bracket
  · exact .bracket reads bracket
  · exact .text reads bracket

theorem ReadsRaw.turn {element : RawElement} (reads : ReadsRaw c element phase) :
    Turn offset c phase (readRaw element offset c) none := by
  unfold readRaw
  split_ifs with bracket
  · exact .rawBracket reads bracket
  · exact .raw reads bracket

theorem InClosing.turn {start : Nat} {name : String} (inside : InClosing c start phase name) :
    Turn offset c phase (leaveClosingName start offset name c).1 (leaveClosingName start offset name c).2 := by
  unfold leaveClosingName
  split_ifs with ends
  · exact .closingEnd inside ends
  · exact .closingInterior inside ends

theorem step_turn (phase : LexPhase) (offset : Nat) (c : Char) :
    Turn offset c phase (phase.step offset c).1 (phase.step offset c).2 := by
  cases phase <;> simp only [step]
  case text => exact ReadsText.text.turn
  case bracket start =>
    split_ifs with letter slash bang question
    · exact .openingStart start letter
    · exact .slash start slash
    · exact .bang start bang
    · exact .question start question
    · exact (ReadsText.bracket start (by simpa using letter) slash bang question).turn
  case bracketSlash start =>
    split_ifs with letter
    · exact .closingStart start letter
    · exact (ReadsText.bracketSlash start (by simpa using letter)).turn
  case openingName start chars =>
    split_ifs with named ends
    · exact .openingName start chars named
    · exact .openingEnd (.name chars (by simpa using named)) (by simp [TagInterior.endsAt,ends])
    · exact .openingInterior (.name chars (by simpa using named)) (by simp [TagInterior.endsAt,ends])
  case openingInterior start name interior =>
    split_ifs with ends
    · exact .openingEnd (.interior name interior) ends
    · exact .openingInterior (.interior name interior) (by simpa using ends)
  case closingName start chars =>
    split_ifs with named
    · exact .closingName start chars named
    · exact (InClosing.name chars (by simpa using named)).turn
  case closingInterior start name => exact (InClosing.interior name).turn
  case markup start interior =>
    cases after : interior.next? c with
    | some next => exact .markup start after
    | none => exact .markupEnd start after
  case raw element => exact ReadsRaw.raw.turn
  case rawBracket element start =>
    split_ifs with slash
    · exact .rawSlash element start slash
    · exact (ReadsRaw.rawBracket start slash).turn
  case rawName element start chars =>
    split_ifs with named own
    · exact .rawName element start chars named
    · exact (InClosing.rawName element chars (by simpa using named) own).turn
    · exact (ReadsRaw.rawName start chars (by simpa using named) (by simpa using own)).turn

theorem turn_of_given (given : (phase.step offset c).2 = some tag) :
    Turn offset c phase (phase.step offset c).1 (some tag) := by
  have turn := phase.step_turn offset c
  rwa [given] at turn

def start? : LexPhase → Option Nat
  | .text => none
  | .bracket start => some start
  | .bracketSlash start => some start
  | .openingName start _ => some start
  | .openingInterior start _ _ => some start
  | .closingName start _ => some start
  | .closingInterior start _ => some start
  | .markup start _ => some start
  | .raw _ => none
  | .rawBracket _ start => some start
  | .rawName _ start _ => some start

/-- A phase that follows without a tag: no tag is pending, or the same one, or one that starts
here. -/
def Continues (phase : LexPhase) (offset : Nat) (c : Char) (next : LexPhase) : Prop :=
  next.start? = none ∨ next.start? = phase.start? ∨ (c = '<' ∧ next.start? = some offset)

/-- A tag that ends here: it is the pending one, and no other is pending after it. -/
def Ends (phase : LexPhase) (offset : Nat) (c : Char) (next : LexPhase) (tag : Tag) : Prop :=
  c = '>' ∧ next.start? = none ∧ phase.start? = some tag.start ∧ tag.stop = offset + 1 ∧
    tag.terminated = true

@[simp] theorem afterOpening_start? (name : String) (selfClosing : Bool) :
    (afterOpening name selfClosing).start? = none := by
  unfold afterOpening
  split
  · rfl
  · split <;> rfl

theorem InOpening.start? {start : Nat} {name : String} {interior : TagInterior}
    (inside : InOpening c start phase name interior) : phase.start? = some start := by
  cases inside <;> rfl

theorem InClosing.start? {start : Nat} {name : String} (inside : InClosing c start phase name) :
    phase.start? = some start := by
  cases inside <;> rfl

theorem Turn.continues (turn : Turn offset c phase next none) : Continues phase offset c next := by
  cases turn with
  | text | raw => exact Or.inl rfl
  | bracket _ bracket | rawBracket _ bracket => exact Or.inr (Or.inr ⟨bracket,rfl⟩)
  | openingInterior inside | closingInterior inside => exact Or.inr (Or.inl inside.start?.symm)
  | openingStart | openingName | slash | closingStart | closingName | bang | question | markup | rawSlash
  | rawName => exact Or.inr (Or.inl rfl)

theorem Turn.ends (turn : Turn offset c phase next (some tag)) : Ends phase offset c next tag := by
  cases turn with
  | openingEnd inside ends =>
    exact ⟨TagInterior.endsAt_bracket ends,afterOpening_start? _ _,inside.start?,rfl,rfl⟩
  | closingEnd inside ends => exact ⟨ends,rfl,inside.start?,rfl,rfl⟩
  | markupEnd start ends => exact ⟨MarkupInterior.next?_none ends,rfl,rfl,rfl,rfl⟩

theorem Turn.starts (turn : Turn offset c phase next given) (other : phase.start? ≠ some offset)
    (starts : next.start? = some offset) :
    (ReadsText c phase ∧ next = .bracket offset) ∨
      ∃ element, ReadsRaw c element phase ∧ next = .rawBracket element offset := by
  cases turn with
  | bracket reads => exact Or.inl ⟨reads,rfl⟩
  | rawBracket reads => exact Or.inr ⟨_,reads,rfl⟩
  | openingInterior inside | closingInterior inside => exact absurd (inside.start?.trans starts) other
  | openingEnd =>
    rw [afterOpening_start?] at starts
    contradiction
  | text | closingEnd | markupEnd | raw => contradiction
  | openingStart | openingName | slash | closingStart | closingName | bang | question | markup | rawSlash
  | rawName => exact absurd starts other

theorem step_cases (phase : LexPhase) (offset : Nat) (c : Char) :
    (∃ next, phase.step offset c = (next,none) ∧ Continues phase offset c next) ∨
      ∃ next tag, phase.step offset c = (next,some tag) ∧ Ends phase offset c next tag := by
  have turn := phase.step_turn offset c
  rcases stepped : phase.step offset c with ⟨next,_ | tag⟩ <;> rw [stepped] at turn
  · exact Or.inl ⟨next,rfl,turn.continues⟩
  · exact Or.inr ⟨next,tag,rfl,turn.ends⟩

/-- The tag that the end of the text cuts off is the pending one. -/
theorem finish_some (phase : LexPhase) (length : Nat) (tag : Tag)
    (found : phase.finish length = some tag) : phase.start? = some tag.start ∧ tag.stop = length := by
  unfold finish at found
  grind [start?]

theorem finish_cut (phase : LexPhase) (length : Nat) (tag : Tag) (found : phase.finish length = some tag) :
    tag.terminated = false := by
  unfold finish at found
  grind

/-- The tags that a part of a text ends, and the phase after it. -/
def run : LexPhase → Nat → List Char → List Tag × LexPhase
  | phase, _, [] => ([],phase)
  | phase, offset, c :: rest =>
    let (next,tag?) := phase.step offset c
    let (tags,last) := next.run (offset + c.utf8Size) rest
    (tag?.toList ++ tags,last)

@[simp] theorem run_nil (phase : LexPhase) (offset : Nat) : phase.run offset [] = ([],phase) := rfl

theorem run_cons (phase : LexPhase) (offset : Nat) (c : Char) (rest : List Char) :
    phase.run offset (c :: rest) =
      ((phase.step offset c).2.toList ++
          ((phase.step offset c).1.run (offset + c.utf8Size) rest).1,
        ((phase.step offset c).1.run (offset + c.utf8Size) rest).2) := rfl

theorem run_append (phase : LexPhase) (offset : Nat) (first second : List Char) :
    phase.run offset (first ++ second) =
      ((phase.run offset first).1 ++
          ((phase.run offset first).2.run (offset + byteLength first) second).1,
        ((phase.run offset first).2.run (offset + byteLength first) second).2) := by
  induction first generalizing phase offset with
  | nil => simp
  | cons c rest ih =>
    simp only [List.cons_append,run_cons,ih,byteLength_cons,List.append_assoc,Nat.add_assoc]

end LexPhase

theorem lexFrom_cons (phase : LexPhase) (offset : Nat) (c : Char) (rest : List Char) :
    lexFrom phase offset (c :: rest) =
      (phase.step offset c).2.toList ++ lexFrom (phase.step offset c).1 (offset + c.utf8Size) rest := by
  rw [lexFrom]
  rcases phase.step offset c with ⟨next,_ | tag⟩ <;> rfl

theorem lexFrom_eq_run (phase : LexPhase) (offset : Nat) (text : List Char) :
    lexFrom phase offset text =
      (phase.run offset text).1 ++
        ((phase.run offset text).2.finish (offset + byteLength text)).toList := by
  induction text generalizing phase offset with
  | nil => rfl
  | cons c rest ih =>
    rw [lexFrom_cons,LexPhase.run_cons,ih,byteLength_cons,List.append_assoc,Nat.add_assoc]

theorem lexFrom_append (phase : LexPhase) (offset : Nat) (first second : List Char) :
    lexFrom phase offset (first ++ second) =
      (phase.run offset first).1 ++
        lexFrom (phase.run offset first).2 (offset + byteLength first) second := by
  simp only [lexFrom_eq_run,LexPhase.run_append,byteLength_append,List.append_assoc,Nat.add_assoc]

def Tag.Between (position length : Nat) (tag : Tag) : Prop :=
  position ≤ tag.start ∧ tag.start < tag.stop ∧ tag.stop ≤ length ∧
    (tag.terminated = false → tag.stop = length)

def TagsInOrder (length : Nat) : Nat → List Tag → Prop
  | position, [] => position ≤ length
  | position, tag :: rest => tag.Between position length ∧ TagsInOrder length tag.stop rest

theorem TagsInOrder.le {position length : Nat} {tags : List Tag}
    (ordered : TagsInOrder length position tags) : position ≤ length := by
  cases tags with
  | nil => exact ordered
  | cons tag rest =>
    obtain ⟨⟨after,nonempty,inside,_⟩,_⟩ := ordered
    omega

theorem lexFrom_inOrder (phase : LexPhase) (offset position : Nat) (text : List Char)
    (passed : position ≤ offset)
    (pending : ∀ start, phase.start? = some start → position ≤ start ∧ start < offset) :
    TagsInOrder (offset + byteLength text) position (lexFrom phase offset text) := by
  induction text generalizing phase offset position with
  | nil =>
    cases found : phase.finish offset with
    | none => simpa [lexFrom,found,TagsInOrder] using passed
    | some tag =>
      obtain ⟨started,stopped⟩ := LexPhase.finish_some phase offset tag found
      have bounds := pending tag.start started
      simp only [lexFrom,found,Option.toList_some,byteLength_nil]
      exact ⟨⟨bounds.1,by omega,by omega,fun _ => stopped⟩,Nat.le_of_eq stopped⟩
  | cons c rest ih =>
    have size := Char.utf8Size_pos c
    rw [byteLength_cons,← Nat.add_assoc,lexFrom]
    rcases LexPhase.step_cases phase offset c with ⟨next,stepped,continued⟩ | ⟨next,tag,stepped,ended⟩
    · rw [stepped]
      apply ih next _ _ (by omega)
      intro start same
      rcases continued with none | kept | ⟨_,opened⟩
      · rw [none] at same; contradiction
      · have bounds := pending start (kept ▸ same)
        omega
      · have equal := Option.some.inj (opened.symm.trans same)
        omega
    · obtain ⟨rfl,none,started,stopped,terminated⟩ := ended
      have bounds := pending tag.start started
      have following : TagsInOrder (offset + Char.utf8Size '>' + byteLength rest) tag.stop
          (lexFrom next (offset + Char.utf8Size '>') rest) := by
        apply ih next _ _ (by omega)
        intro start same
        rw [none] at same
        contradiction
      rw [stepped]
      refine ⟨⟨bounds.1,by omega,following.le,?_⟩,following⟩
      simp [terminated]

theorem lex_inOrder (text : List Char) : TagsInOrder (byteLength text) 0 (lex text) := by
  have ordered := lexFrom_inOrder .text 0 0 text (Nat.le_refl 0) (by simp [LexPhase.start?])
  simpa [lex] using ordered

end AccessibleMarkup.Markup
