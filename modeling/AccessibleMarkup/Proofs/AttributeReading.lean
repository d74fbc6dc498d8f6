import AccessibleMarkup.Markup.Attribute.Reader
import AccessibleMarkup.Repair.Fix
import Mathlib.Tactic.SplitIfs

/-! Reading the attributes of a tag in parts. The main result is `lastRead`: where the last attribute
of a tag ends, the reader stands in one of five ways, and only in three of them does it take a blank
there for the end of that attribute. -/
namespace AccessibleMarkup.Markup

open Text

variable {offset : Nat} {c : Char} {phase next : AttributePhase} {given : Option Attribute} {name : WrittenName}

namespace AttributePhase

/-- The attributes that a part of a tag ends, and the phase after it. -/
def run : AttributePhase → Nat → List Char → List Attribute × AttributePhase
  | phase, _, [] => ([],phase)
  | phase, offset, c :: rest =>
    let (next,attr?) := phase.step offset c
    let (attrs,last) := next.run (offset + c.utf8Size) rest
    (attr?.toList ++ attrs,last)

@[simp] theorem run_nil (phase : AttributePhase) (offset : Nat) : phase.run offset [] = ([],phase) := rfl

theorem run_cons (phase : AttributePhase) (offset : Nat) (c : Char) (rest : List Char) :
    phase.run offset (c :: rest) =
      ((phase.step offset c).2.toList ++
          ((phase.step offset c).1.run (offset + c.utf8Size) rest).1,
        ((phase.step offset c).1.run (offset + c.utf8Size) rest).2) := rfl

theorem run_append (phase : AttributePhase) (offset : Nat) (first second : List Char) :
    phase.run offset (first ++ second) =
      ((phase.run offset first).1 ++
          ((phase.run offset first).2.run (offset + byteLength first) second).1,
        ((phase.run offset first).2.run (offset + byteLength first) second).2) := by
  induction first generalizing phase offset with
  | nil => simp
  | cons c rest ih =>
    simp only [List.cons_append,run_cons,ih,byteLength_cons,List.append_assoc,Nat.add_assoc]

end AttributePhase

theorem readAttributesFrom_cons (phase : AttributePhase) (offset : Nat) (c : Char)
    (rest : List Char) :
    readAttributesFrom phase offset (c :: rest) =
      (phase.step offset c).2.toList ++
        readAttributesFrom (phase.step offset c).1 (offset + c.utf8Size) rest := by
  rw [readAttributesFrom]
  rcases phase.step offset c with ⟨next,_ | attr⟩ <;> rfl

theorem readAttributesFrom_append (phase : AttributePhase) (offset : Nat)
    (first second : List Char) :
    readAttributesFrom phase offset (first ++ second) =
      (phase.run offset first).1 ++
        readAttributesFrom (phase.run offset first).2 (offset + byteLength first) second := by
  induction first generalizing phase offset with
  | nil => simp
  | cons c rest ih =>
    rw [List.cons_append,readAttributesFrom_cons,ih,AttributePhase.run_cons,byteLength_cons,
      List.append_assoc,Nat.add_assoc]

theorem endsName_of_isMarkupSpace {c : Char} (space : isMarkupSpace c = true) :
    endsName c = true := by
  simp [endsName,space]

theorem isMarkupSpace_of_continues {c : Char} (continues : endsName c = false) :
    isMarkupSpace c = false := by
  rw [Bool.eq_false_iff]
  exact fun space => by simp [endsName_of_isMarkupSpace space] at continues

theorem readAttributesFrom_tagName (name rest : List Char) (offset : Nat)
    (continues : ∀ c ∈ name, endsName c = false) :
    readAttributesFrom .tagName offset (name ++ rest) =
      readAttributesFrom .tagName (offset + byteLength name) rest := by
  induction name generalizing offset with
  | nil => rfl
  | cons c name ih =>
    have stepped : AttributePhase.step .tagName offset c = (.tagName,none) := by
      simp [AttributePhase.step,AttributePhase.readTagName,continues c List.mem_cons_self]
    rw [List.cons_append,readAttributesFrom_cons,stepped,
      ih _ fun d member => continues d (List.mem_cons_of_mem _ member),byteLength_cons,Nat.add_assoc]
    rfl

theorem readAttributesFrom_nameEnd (offset : Nat) (text : List Char)
    (ended : ∀ c, text.head? = some c → endsName c = true) :
    readAttributesFrom .tagName offset text = readAttributesFrom .gap offset text := by
  cases text with
  | nil => rfl
  | cons c rest =>
    rw [readAttributesFrom_cons,readAttributesFrom_cons]
    simp [AttributePhase.step,AttributePhase.readTagName,ended c rfl]

namespace AttributePhase

/-- The reader is before the tag or in the name of the tag. -/
inductive InTagName : AttributePhase → Prop
  | outside : InTagName .outside
  | tagName : InTagName .tagName

/-- A name stands before an offset, and no equals sign has followed it. -/
inductive NameAt (offset : Nat) : AttributePhase → WrittenName → Prop
  | afterName (name : WrittenName) : NameAt offset (.afterName name) name
  | naming (start : Nat) (chars : List Char) : NameAt offset (.naming start chars) (.ofReversed start offset chars)

/-- Everything that the character at an offset can do: the phase before it, the phase after it and the
attribute that it ends. -/
inductive Turn (offset : Nat) (c : Char) : AttributePhase → AttributePhase → Option Attribute → Prop
  | tagName {phase : AttributePhase} (inName : InTagName phase) (continues : endsName c = false) :
      Turn offset c phase .tagName none
  | tagNameEnd {phase : AttributePhase} (inName : InTagName phase) (ends : endsName c = true) :
      Turn offset c phase (readGap offset c) none
  | gap : Turn offset c .gap (readGap offset c) none
  | letter (start : Nat) (chars : List Char) (continues : endsName c = false) (unequal : c ≠ '=') :
      Turn offset c (.naming start chars) (.naming start (c :: chars)) none
  | pause {phase : AttributePhase} {name : WrittenName} (named : NameAt offset phase name)
      (space : isMarkupSpace c = true) : Turn offset c phase (.afterName name) none
  | equals {phase : AttributePhase} {name : WrittenName} (named : NameAt offset phase name)
      (sign : c = '=') : Turn offset c phase (.afterEquals name) none
  /-- Any other character ends a name with a pause behind it; without one it has to end names. -/
  | bare {phase : AttributePhase} {name : WrittenName} (named : NameAt offset phase name)
      (shown : isMarkupSpace c = false) (unequal : c ≠ '=')
      (apart : phase = .afterName name ∨ endsName c = true) :
      Turn offset c phase (readGap offset c) (some name.bare)
  | valuePause (name : WrittenName) (space : isMarkupSpace c = true) :
      Turn offset c (.afterEquals name) (.afterEquals name) none
  | mark (name : WrittenName) (isMark : c = '"' ∨ c = '\'') :
      Turn offset c (.afterEquals name) (.quoted name c (offset + 1) []) none
  | dangling (name : WrittenName) (bracket : c = '>') :
      Turn offset c (.afterEquals name) .done
        (some (name.withValue .unquoted [] ⟨offset,offset⟩ offset))
  | valueStart (name : WrittenName) (shown : isMarkupSpace c = false) (unmarked : c ≠ '"' ∧ c ≠ '\'')
      (inside : c ≠ '>') : Turn offset c (.afterEquals name) (.unquoted name offset [c]) none
  | valueEnd (name : WrittenName) (start : Nat) (chars : List Char) {next : AttributePhase}
      (ended : next = .done ∧ c = '>' ∨ next = .gap ∧ isMarkupSpace c = true) :
      Turn offset c (.unquoted name start chars) next
        (some (name.withValue .unquoted chars ⟨start,offset⟩ offset))
  | valueChar (name : WrittenName) (start : Nat) (chars : List Char) (shown : isMarkupSpace c = false)
      (inside : c ≠ '>') :
      Turn offset c (.unquoted name start chars) (.unquoted name start (c :: chars)) none
  | quoteEnd (name : WrittenName) (start : Nat) (chars : List Char) :
      Turn offset c (.quoted name c start chars) .gap
        (some (name.withValue (quoteOf c) chars ⟨start,offset⟩ (offset + 1)))
  | quoteChar (name : WrittenName) (mark : Char) (start : Nat) (chars : List Char) (other : c ≠ mark) :
      Turn offset c (.quoted name mark start chars) (.quoted name mark start (c :: chars)) none
  | done : Turn offset c .done .done none

theorem step_turn (phase : AttributePhase) (offset : Nat) (c : Char) :
    Turn offset c phase (phase.step offset c).1 (phase.step offset c).2 := by
  cases phase <;> simp only [step,readTagName]
  case outside =>
    split_ifs with opens ends
    · exact .tagName .outside (by rw [opens]; rfl)
    · exact .tagNameEnd .outside ends
    · exact .tagName .outside (by simpa using ends)
  case tagName =>
    split_ifs with ends
    · exact .tagNameEnd .tagName ends
    · exact .tagName .tagName (by simpa using ends)
  case gap => exact .gap
  case naming start chars =>
    split_ifs with space sign ends
    · exact .pause (.naming start chars) space
    · exact .equals (.naming start chars) sign
    · exact .bare (.naming start chars) (by simpa using space) sign (Or.inr ends)
    · exact .letter start chars (by simpa using ends) sign
  case afterName name =>
    split_ifs with space sign
    · exact .pause (.afterName name) space
    · exact .equals (.afterName name) sign
    · exact .bare (.afterName name) (by simpa using space) sign (Or.inl rfl)
  case afterEquals name =>
    split_ifs with space isMark bracket
    · exact .valuePause name space
    · exact .mark name (by simpa using isMark)
    · exact .dangling name bracket
    · exact .valueStart name (by simpa using space) (by simpa using isMark) bracket
  case unquoted name start chars =>
    split_ifs with bracket space
    · exact .valueEnd name start chars (Or.inl ⟨rfl,bracket⟩)
    · exact .valueEnd name start chars (Or.inr ⟨rfl,space⟩)
    · exact .valueChar name start chars (by simpa using space) bracket
  case quoted name mark start chars =>
    split_ifs with closes
    · subst closes
      exact .quoteEnd name start chars
    · exact .quoteChar name mark start chars closes
  case done => exact .done

def pending? : AttributePhase → Option WrittenName
  | .afterName name => some name
  | .afterEquals name => some name
  | .unquoted name _ _ => some name
  | .quoted name _ _ _ => some name
  | _ => none

theorem NameAt.of_pending {earlier : WrittenName} (named : NameAt offset phase name)
    (pending : phase.pending? = some earlier) : name = earlier := by
  cases named with
  | afterName => exact Option.some.inj pending
  | naming => contradiction

/-- A name that is pending stays so until an attribute with that name is given out. -/
theorem Turn.pending (turn : Turn offset c phase next given) (pending : phase.pending? = some name) :
    next.pending? = some name ∨ ∃ attr, given = some attr ∧ attr.name = name.name := by
  cases turn with
  | tagName inName | tagNameEnd inName => cases inName <;> contradiction
  | gap | letter | done => contradiction
  | pause named | equals named => exact Or.inl (congrArg some (named.of_pending pending))
  | bare named => exact Or.inr ⟨_,rfl,congrArg WrittenName.name (named.of_pending pending)⟩
  | valuePause | mark | valueStart | valueChar | quoteChar => exact Or.inl pending
  | dangling | valueEnd | quoteEnd =>
    exact Or.inr ⟨_,rfl,congrArg WrittenName.name (Option.some.inj pending)⟩

theorem pending_read (phase : AttributePhase) (name : WrittenName)
    (pending : phase.pending? = some name) (offset : Nat) (text : List Char) :
    ∃ attr ∈ readAttributesFrom phase offset text, attr.name = name.name := by
  induction text generalizing phase offset with
  | nil =>
    cases phase <;> simp only [pending?,reduceCtorEq,Option.some.injEq] at pending <;> subst pending
    all_goals exact ⟨_,List.mem_singleton.mpr rfl,rfl⟩
  | cons c rest ih =>
    rw [readAttributesFrom_cons]
    rcases (phase.step_turn offset c).pending pending with kept | ⟨attr,given,same⟩
    · obtain ⟨attr,later,same⟩ := ih _ kept _
      exact ⟨attr,List.mem_append_right _ later,same⟩
    · exact ⟨attr,List.mem_append_left _ (by rw [given]; exact List.mem_singleton.mpr rfl),same⟩

theorem naming_read (start offset : Nat) (chars text : List Char)
    (ended : ∀ c, text.head? = some c → endsName c = true ∨ c = '=') :
    ∃ attr ∈ readAttributesFrom (.naming start chars) offset text,
      attr.name = String.ofList chars.reverse := by
  cases text with
  | nil => exact ⟨_,List.mem_singleton.mpr rfl,rfl⟩
  | cons c rest =>
    rw [readAttributesFrom_cons]
    simp only [step]
    split_ifs with space equals other
    · simpa [WrittenName.ofReversed] using
        pending_read (.afterName (.ofReversed start offset chars)) _ rfl (offset + c.utf8Size) rest
    · simpa [WrittenName.ofReversed] using
        pending_read (.afterEquals (.ofReversed start offset chars)) _ rfl (offset + c.utf8Size) rest
    · exact ⟨_,List.mem_append_left _ (List.mem_singleton.mpr rfl),rfl⟩
    · exact absurd (ended c rfl) (by simp [equals,other])

theorem naming_read_ne_nil (start offset : Nat) (chars text : List Char) :
    readAttributesFrom (.naming start chars) offset text ≠ [] := by
  have given (name : WrittenName) (phase : AttributePhase) (pending : phase.pending? = some name)
      (offset : Nat) (rest : List Char) : readAttributesFrom phase offset rest ≠ [] := by
    obtain ⟨attr,member,_⟩ := pending_read phase name pending offset rest
    exact List.ne_nil_of_mem member
  induction text generalizing offset chars with
  | nil => simp [readAttributesFrom,finish]
  | cons c rest ih =>
    rw [readAttributesFrom_cons]
    simp only [step]
    split_ifs
    · exact given _ _ rfl _ _
    · exact given _ _ rfl _ _
    · simp
    · exact ih _ _

theorem gap_read_nil (offset : Nat) (text : List Char)
    (nothing : readAttributesFrom .gap offset text = []) :
    ∀ c, text.head? = some c → endsName c = true ∨ c = '=' := by
  cases text with
  | nil => simp
  | cons c rest =>
    rintro d ⟨rfl⟩
    rw [readAttributesFrom_cons,step,readGap] at nothing
    split_ifs at nothing with bracket ends
    · exact Or.inl (by simp [endsName,bracket])
    · simpa using ends
    · exact absurd nothing (naming_read_ne_nil _ _ _ _)

/-- A name or a value without quotes that is being read has a character, and a quotation mark is one
of two. -/
def Started : AttributePhase → Prop
  | .naming _ chars => chars ≠ []
  | .unquoted _ _ chars => chars ≠ []
  | .quoted _ mark _ _ => mark = '"' ∨ mark = '\''
  | _ => True

theorem started_readGap (offset : Nat) (c : Char) : (readGap offset c).Started := by
  unfold readGap
  split_ifs <;> simp [Started]

theorem Turn.started (turn : Turn offset c phase next given) (started : phase.Started) : next.Started := by
  cases turn with
  | tagNameEnd | gap | bare => exact started_readGap _ _
  | letter | valueStart | valueChar => exact List.cons_ne_nil _ _
  | mark _ isMark => exact isMark
  | quoteChar => exact started
  | valueEnd _ _ _ ended => rcases ended with ⟨rfl,_⟩ | ⟨rfl,_⟩ <;> trivial
  | _ => trivial

theorem utf8Size_of_isMark (isMark : c = '"' ∨ c = '\'') : c.utf8Size = 1 := by
  rcases isMark with rfl | rfl <;> rfl

end AttributePhase

theorem utf8Size_of_isMarkupSpace {c : Char} (space : isMarkupSpace c = true) : c.utf8Size = 1 := by
  simp only [isMarkupSpace,Bool.or_eq_true,beq_iff_eq] at space
  rcases space with (((rfl | rfl) | rfl) | rfl) | rfl <;> rfl

/-- Whether the attribute is written to its end: a value without quotes is not empty, and a quote
that opens is closed. -/
def Attribute.isComplete (attr : Attribute) : Bool :=
  match attr.quote with
  | .bare => true
  | .unquoted => attr.value != ""
  | _ => attr.valueRange.any fun value => value.stop < attr.range.stop

/-- How the reader stands where the last attribute ends: the attributes that it has given out, its
phase, and the text that is still to come. -/
inductive LastRead (earlier : List Attribute) (last : Attribute) :
    List Attribute → AttributePhase → List Char → Prop
  | bare (start : Nat) (chars rest : List Char) (complete : last.isComplete = true)
      (ended : ∀ c, rest.head? = some c → endsName c = true) :
      LastRead earlier last earlier (.naming start chars) rest
  | unquoted (name : WrittenName) (start : Nat) (chars rest : List Char)
      (complete : last.isComplete = true)
      (ended : ∀ c, rest.head? = some c → endsName c = true) :
      LastRead earlier last earlier (.unquoted name start chars) rest
  | closed (rest : List Char) (complete : last.isComplete = true)
      (ended : ∀ c, rest.head? = some c → endsName c = true ∨ c = '=') :
      LastRead earlier last (earlier ++ [last]) .gap rest
  | dangling (name : WrittenName) (rest : List Char) (incomplete : last.isComplete = false)
      (named : last.name = name.name) (ended : ∀ c, rest.head? = some c → c = '>') :
      LastRead earlier last earlier (.afterEquals name) rest
  | unclosed (name : WrittenName) (mark : Char) (start : Nat) (chars : List Char)
      (incomplete : last.isComplete = false) (named : last.name = name.name)
      (quote : mark = '"' ∨ mark = '\'') :
      LastRead earlier last earlier (.quoted name mark start chars) []

theorem LastRead.cons {earlier given : List Attribute} {last : Attribute} {phase : AttributePhase}
    {rest : List Char} (read : LastRead earlier last given phase rest) (more : List Attribute) :
    LastRead (more ++ earlier) last (more ++ given) phase rest := by
  cases read with
  | bare start chars rest complete ended => exact .bare start chars rest complete ended
  | unquoted name start chars rest complete ended => exact .unquoted name start chars rest complete ended
  | closed rest complete ended =>
    rw [← List.append_assoc]
    exact .closed rest complete ended
  | dangling name rest incomplete named ended => exact .dangling name rest incomplete named ended
  | unclosed name mark start chars incomplete named quote =>
    exact .unclosed name mark start chars incomplete named quote

theorem isComplete_unquoted (name : WrittenName) (chars : List Char) (value : ByteRange) (stop : Nat)
    (started : chars ≠ []) : (name.withValue .unquoted chars value stop).isComplete = true := by
  simp [WrittenName.withValue,Attribute.isComplete,started]

theorem isComplete_quoted (name : WrittenName) (mark : Char) (chars : List Char) (start offset stop : Nat) :
    (name.withValue (AttributePhase.quoteOf mark) chars ⟨start,offset⟩ stop).isComplete =
      decide (offset < stop) := by
  unfold AttributePhase.quoteOf
  split_ifs <;> rfl

namespace AttributePhase

theorem readGap_ne_afterName (offset : Nat) (c : Char) (name : WrittenName) : readGap offset c ≠ .afterName name := by
  unfold readGap
  split_ifs <;> simp

/-- White space stands behind a name that is not given out yet. -/
theorem Turn.afterName (turn : Turn offset c phase (.afterName name) given) :
    isMarkupSpace c = true ∧ given = none ∧ NameAt offset phase name := by
  generalize reached : AttributePhase.afterName name = next at turn
  cases turn with
  | tagNameEnd | gap | bare => exact absurd reached.symm (readGap_ne_afterName _ _ _)
  | pause named space =>
    obtain rfl := afterName.inj reached
    exact ⟨space,rfl,named⟩
  | valueEnd _ _ _ ended => rcases ended with ⟨rfl,_⟩ | ⟨rfl,_⟩ <;> contradiction
  | _ => contradiction

theorem Turn.last {last : Attribute} (turn : Turn offset c phase next (some last)) (started : phase.Started)
    (rest : List Char) (alone : readAttributesFrom next (offset + c.utf8Size) rest = []) :
    (∃ name, phase = .afterName name ∧ last = name.bare) ∨
      (last.range.stop = offset ∧ LastRead [] last [] phase (c :: rest)) ∨
      (last.range.stop = offset + c.utf8Size ∧ LastRead [] last [last] next rest) := by
  have head (ends : endsName c = true) : ∀ d, (c :: rest).head? = some d → endsName d = true := by
    rintro d ⟨rfl⟩
    exact ends
  cases turn with
  | bare named _ _ apart =>
    cases named with
    | afterName => exact Or.inl ⟨_,rfl,rfl⟩
    | naming start chars =>
      have ends := apart.resolve_left (by simp)
      exact Or.inr (Or.inl ⟨rfl,.bare start chars _ rfl (head ends)⟩)
  | dangling name bracket =>
    refine Or.inr (Or.inl ⟨rfl,.dangling name _ rfl rfl ?_⟩)
    rintro d ⟨rfl⟩
    exact bracket
  | valueEnd name start chars ended =>
    have complete := isComplete_unquoted name chars ⟨start,offset⟩ offset started
    have ends : endsName c = true := by
      rcases ended with ⟨_,bracket⟩ | ⟨_,space⟩
      · simp [endsName,bracket]
      · exact endsName_of_isMarkupSpace space
    exact Or.inr (Or.inl ⟨rfl,.unquoted name start chars _ complete (head ends)⟩)
  | quoteEnd name start chars =>
    have complete := isComplete_quoted name c chars start offset (offset + 1)
    refine Or.inr (Or.inr ⟨by rw [utf8Size_of_isMark started]; rfl,?_⟩)
    exact .closed rest (by simp [complete]) (gap_read_nil _ rest alone)

theorem finish_last {phase : AttributePhase} {offset : Nat} {last : Attribute} (started : phase.Started)
    (finished : phase.finish offset = some last) :
    (∃ name, phase = .afterName name ∧ last = name.bare) ∨
      (last.range.stop = offset ∧ LastRead [] last [] phase []) := by
  cases phase with
  | naming start chars =>
    obtain rfl := Option.some.inj finished
    exact Or.inr ⟨rfl,.bare start chars [] rfl (by simp)⟩
  | afterName name =>
    obtain rfl := Option.some.inj finished
    exact Or.inl ⟨name,rfl,rfl⟩
  | afterEquals name =>
    obtain rfl := Option.some.inj finished
    exact Or.inr ⟨rfl,.dangling name [] rfl rfl (by simp)⟩
  | unquoted name start chars =>
    obtain rfl := Option.some.inj finished
    have complete := isComplete_unquoted name chars ⟨start,offset⟩ offset started
    exact Or.inr ⟨rfl,.unquoted name start chars [] complete (by simp)⟩
  | quoted name mark start chars =>
    obtain rfl := Option.some.inj finished
    have incomplete := isComplete_quoted name mark chars start offset offset
    exact Or.inr ⟨rfl,.unclosed name mark start chars (by simp [incomplete]) rfl started⟩
  | _ => contradiction

end AttributePhase

/-- Where the last attribute of a text ends. It may end before the text when nothing but its name was
read and white space has followed. -/
theorem lastRead (phase : AttributePhase) (started : phase.Started) (offset : Nat)
    (text : List Char) (earlier : List Attribute) (last : Attribute)
    (read : readAttributesFrom phase offset text = earlier ++ [last]) :
    (∃ name, phase = .afterName name ∧ last = name.bare ∧ earlier = []) ∨
      ∃ before after, text = before ++ after ∧ offset + byteLength before = last.range.stop ∧
        LastRead earlier last (phase.run offset before).1 (phase.run offset before).2 after := by
  -- Along the text: either a later character gives the last attribute, or this one does.
  induction text generalizing phase offset earlier with
  | nil =>
    rw [readAttributesFrom] at read
    cases finished : phase.finish offset with
    | none => simp [finished] at read
    | some given =>
      rw [finished] at read
      obtain ⟨rfl,rfl⟩ : [] = earlier ∧ given = last := by
        cases earlier <;> simp_all
      rcases AttributePhase.finish_last started finished with ⟨name,rfl,same⟩ | ⟨stop,stands⟩
      · exact Or.inl ⟨name,rfl,same,rfl⟩
      · exact Or.inr ⟨[],[],rfl,stop.symm,stands⟩
  | cons c rest ih =>
    rw [readAttributesFrom_cons] at read
    rcases List.eq_nil_or_concat (readAttributesFrom (phase.step offset c).1 (offset + c.utf8Size) rest)
      with alone | ⟨front,final,tail⟩
    · rw [alone,List.append_nil] at read
      cases given : (phase.step offset c).2 with
      | none => simp [given] at read
      | some attr =>
        rw [given] at read
        obtain ⟨rfl,rfl⟩ : [] = earlier ∧ attr = last := by
          cases earlier <;> simp_all
        have turn := phase.step_turn offset c
        rw [given] at turn
        rcases turn.last started rest alone with
          ⟨name,rfl,same⟩ | ⟨stop,stands⟩ | ⟨stop,stands⟩
        · exact Or.inl ⟨name,rfl,same,rfl⟩
        · exact Or.inr ⟨[],c :: rest,rfl,by simp [stop],stands⟩
        · refine Or.inr ⟨[c],rest,rfl,by simp [stop],?_⟩
          simpa [AttributePhase.run_cons,given] using stands
    · rw [List.concat_eq_append] at tail
      rw [tail,← List.append_assoc] at read
      obtain ⟨rfl,same⟩ := List.append_inj' read rfl
      obtain rfl := List.singleton_inj.mp same
      have turn := phase.step_turn offset c
      rcases ih _ (turn.started started) _ front tail with
        ⟨name,reached,rfl,rfl⟩ | ⟨before,after,rfl,stop,stands⟩
      · rw [reached] at turn
        obtain ⟨space,none,named⟩ := turn.afterName
        cases named with
        | afterName => exact Or.inl ⟨name,rfl,rfl,by simp [none]⟩
        | naming start chars =>
          refine Or.inr ⟨[],c :: rest,rfl,rfl,?_⟩
          rw [none]
          refine .bare start chars _ rfl ?_
          rintro d ⟨rfl⟩
          exact endsName_of_isMarkupSpace space
      · refine Or.inr ⟨c :: before,after,rfl,?_,?_⟩
        · rw [byteLength_cons]; omega
        · rw [AttributePhase.run_cons]
          exact stands.cons _

theorem isMarkupSpace_isBlank {c : Char} (space : isMarkupSpace c = true) : isBlank c = true := by
  simp only [isMarkupSpace,Bool.or_eq_true,beq_iff_eq] at space
  rcases space with (((rfl | rfl) | rfl) | rfl) | rfl <;> rfl

theorem continues_of_isAttributeName {name : String} (valid : Fix.isAttributeName name = true) :
    name.toList ≠ [] ∧ ∀ c ∈ name.toList, endsName c = false ∧ c ≠ '=' := by
  simp only [Fix.isAttributeName,Bool.and_eq_true,bne_iff_ne,ne_eq,List.all_eq_true,
    Bool.not_eq_true',Fix.endsAttributeName,Bool.or_eq_false_iff,beq_eq_false_iff_ne] at valid
  refine ⟨by simpa using valid.1,fun c member => ?_⟩
  obtain ⟨⟨⟨⟨⟨⟨⟨blank,_⟩,double⟩,single⟩,bracket⟩,slash⟩,equals⟩,_⟩ := valid.2 c member
  have space : isMarkupSpace c = false := by
    rw [Bool.eq_false_iff]
    intro space
    rw [isMarkupSpace_isBlank space] at blank
    contradiction
  exact ⟨by simp [endsName,space,double,single,bracket,slash],equals⟩

namespace AttributePhase

theorem run_naming (start offset : Nat) (read name : List Char)
    (written : ∀ c ∈ name, endsName c = false ∧ c ≠ '=') :
    run (.naming start read) offset name = ([],.naming start (name.reverse ++ read)) := by
  induction name generalizing offset read with
  | nil => rfl
  | cons c name ih =>
    obtain ⟨ends,equals⟩ := written c List.mem_cons_self
    have stepped : step (.naming start read) offset c = (.naming start (c :: read),none) := by
      simp [step,isMarkupSpace_of_continues ends,equals,ends]
    rw [run_cons,stepped,ih _ _ fun d member => written d (List.mem_cons_of_mem _ member)]
    simp

theorem step_gap_name (offset : Nat) (c : Char) (ends : endsName c = false) (equals : c ≠ '=') :
    step .gap offset c = (.naming offset [c],none) := by
  have bracket : ¬ c = '>' := by
    rintro rfl
    exact absurd ends (by decide)
  simp [step,readGap,bracket,ends,equals]

theorem run_gap_chars (offset : Nat) (name : List Char) (nonempty : name ≠ [])
    (written : ∀ c ∈ name, endsName c = false ∧ c ≠ '=') :
    run .gap offset name = ([],.naming offset name.reverse) := by
  cases name with
  | nil => contradiction
  | cons c rest =>
    obtain ⟨ends,equals⟩ := written c List.mem_cons_self
    rw [run_cons,step_gap_name offset c ends equals,
      run_naming _ _ _ _ fun d member => written d (List.mem_cons_of_mem _ member)]
    simp

theorem run_gap_name (offset : Nat) (name : String) (valid : Fix.isAttributeName name = true) :
    run .gap offset name.toList = ([],.naming offset name.toList.reverse) := by
  obtain ⟨nonempty,written⟩ := continues_of_isAttributeName valid
  exact run_gap_chars offset name.toList nonempty written

theorem run_afterName_name (before : WrittenName) (offset : Nat) (name : String)
    (valid : Fix.isAttributeName name = true) :
    run (.afterName before) offset name.toList = ([before.bare],.naming offset name.toList.reverse) := by
  have gap := run_gap_name offset name valid
  obtain ⟨nonempty,written⟩ := continues_of_isAttributeName valid
  cases chars : name.toList with
  | nil => contradiction
  | cons c rest =>
    rw [chars] at written gap
    obtain ⟨ends,equals⟩ := written c List.mem_cons_self
    have stepped : step (.afterName before) offset c = (.naming offset [c],some before.bare) := by
      have next : readGap offset c = .naming offset [c] :=
        congrArg Prod.fst (step_gap_name offset c ends equals)
      simp [step,isMarkupSpace_of_continues ends,equals,next]
    rw [run_cons,step_gap_name offset c ends equals] at gap
    obtain ⟨given,phase⟩ := Prod.mk.inj gap
    rw [Option.toList_none,List.nil_append] at given
    rw [run_cons,stepped,given,phase]
    rfl

def separates : AttributePhase → Bool
  | .tagName => true
  | .gap => true
  | .naming _ _ => true
  | .unquoted _ _ _ => true
  | _ => false

theorem run_blank_name (phase : AttributePhase) (separated : phase.separates = true) (offset : Nat)
    (name : String) (valid : Fix.isAttributeName name = true) :
    (phase.run offset (' ' :: name.toList)).2 = .naming (offset + 1) name.toList.reverse := by
  rw [run_cons]
  cases phase <;> simp only [separates,Bool.false_eq_true] at separated
  case naming start chars => exact congrArg Prod.snd (run_afterName_name _ (offset + 1) name valid)
  all_goals exact congrArg Prod.snd (run_gap_name (offset + 1) name valid)

theorem run_unquoted (name : WrittenName) (start offset : Nat) (read chars : List Char)
    (inside : ∀ c ∈ chars, c ≠ '>' ∧ isMarkupSpace c = false) :
    run (.unquoted name start read) offset chars = ([],.unquoted name start (chars.reverse ++ read)) := by
  induction chars generalizing offset read with
  | nil => rfl
  | cons c chars ih =>
    obtain ⟨bracket,space⟩ := inside c List.mem_cons_self
    have stepped : step (.unquoted name start read) offset c =
        (.unquoted name start (c :: read),none) := by
      simp [step,space,bracket]
    rw [run_cons,stepped,ih _ _ fun d member => inside d (List.mem_cons_of_mem _ member)]
    simp

theorem run_quoted (name : WrittenName) (mark : Char) (start offset : Nat) (read chars : List Char)
    (inside : ∀ c ∈ chars, c ≠ mark) :
    run (.quoted name mark start read) offset chars =
      ([],.quoted name mark start (chars.reverse ++ read)) := by
  induction chars generalizing offset read with
  | nil => rfl
  | cons c chars ih =>
    have stepped : step (.quoted name mark start read) offset c =
        (.quoted name mark start (c :: read),none) := by
      simp [step,inside c List.mem_cons_self]
    rw [run_cons,stepped,ih _ _ fun d member => inside d (List.mem_cons_of_mem _ member)]
    simp

theorem run_dangling_name (name : WrittenName) (offset : Nat) (added : String)
    (valid : Fix.isAttributeName added = true) :
    run (.afterEquals name) offset (' ' :: added.toList) =
      ([],.unquoted name (offset + 1) added.toList.reverse) := by
  obtain ⟨nonempty,written⟩ := continues_of_isAttributeName valid
  cases chars : added.toList with
  | nil => contradiction
  | cons c rest =>
    rw [chars] at written
    obtain ⟨ends,_⟩ := written c List.mem_cons_self
    have blank : step (.afterEquals name) offset ' ' = (.afterEquals name,none) := rfl
    have started : step (.afterEquals name) (offset + 1) c = (.unquoted name (offset + 1) [c],none) := by
      simp only [endsName,Bool.or_eq_false_iff,decide_eq_false_iff_not] at ends
      simp [step,ends]
    have inside : ∀ d ∈ rest, d ≠ '>' ∧ isMarkupSpace d = false := by
      intro d member
      have continues := (written d (List.mem_cons_of_mem _ member)).1
      refine ⟨?_,isMarkupSpace_of_continues continues⟩
      rintro rfl
      exact absurd continues (by decide)
    rw [run_cons,blank,run_cons,show offset + (' ').utf8Size = offset + 1 from rfl,started,
      run_unquoted _ _ _ _ _ inside]
    simp

theorem read_done (offset : Nat) (text : List Char) : readAttributesFrom .done offset text = [] := by
  induction text generalizing offset with
  | nil => rfl
  | cons c rest ih =>
    rw [readAttributesFrom_cons,step,ih]
    rfl

theorem unquoted_read (name : WrittenName) (start offset : Nat) (chars text : List Char)
    (ended : ∀ c, text.head? = some c → c = '>') :
    (readAttributesFrom (.unquoted name start chars) offset text).map (·.name) = [name.name] := by
  cases text with
  | nil => rfl
  | cons c rest =>
    obtain rfl := ended c rfl
    rw [readAttributesFrom_cons,step,if_pos rfl,read_done]
    rfl

theorem run_unclosed_name (name : WrittenName) (mark : Char) (start offset : Nat) (read : List Char)
    (quote : mark = '"' ∨ mark = '\'') (added : String) (valid : Fix.isAttributeName added = true) :
    run (.quoted name mark start read) offset (' ' :: added.toList) =
      ([],.quoted name mark start (added.toList.reverse ++ ' ' :: read)) := by
  have other : ∀ c ∈ ' ' :: added.toList, c ≠ mark := by
    have ends : endsName mark = true := by rcases quote with rfl | rfl <;> rfl
    intro c member
    rcases List.mem_cons.mp member with rfl | inside
    · rcases quote with rfl | rfl <;> decide
    · rintro rfl
      rw [((continues_of_isAttributeName valid).2 c inside).1] at ends
      contradiction
  rw [run_quoted _ _ _ _ _ _ other]
  simp

theorem run_bracket (phase : AttributePhase) (offset : Nat) (body : List Char)
    (started : phase.Started) :
    (phase.run offset (body ++ ['>'])).2 = .done ∨
      ∃ name mark start chars, (phase.run offset (body ++ ['>'])).2 = .quoted name mark start chars := by
  induction body generalizing phase offset with
  | cons c rest ih =>
    rw [List.cons_append,run_cons]
    exact ih _ _ ((phase.step_turn offset c).started started)
  | nil =>
    rw [List.nil_append,run_cons,run_nil]
    cases phase with
    | quoted name mark start chars =>
      have other : ¬ '>' = mark := by
        rcases started with rfl | rfl <;> decide
      exact Or.inr ⟨name,mark,start,'>' :: chars,by simp [step,other]⟩
    | _ => exact Or.inl rfl

/-- Number of characters of the name that the reader is at or has not given out yet. -/
def nameSize? : AttributePhase → Option Nat
  | .naming _ chars => some chars.length
  | phase => phase.pending?.map (·.name.length)

theorem nameSize?_readGap {size : Nat} (sized : (readGap offset c).nameSize? = some size) : size ≤ 1 := by
  unfold readGap at sized
  split_ifs at sized <;> simp_all [nameSize?,pending?]

theorem NameAt.nameSize (named : NameAt offset phase name) : phase.nameSize? = some name.name.length := by
  cases named with
  | afterName => rfl
  | naming => simp [nameSize?,WrittenName.ofReversed]

theorem Turn.nameSize_given {attr : Attribute} (turn : Turn offset c phase next (some attr)) :
    phase.nameSize? = some attr.name.length := by
  cases turn with
  | bare named => exact named.nameSize
  | dangling | valueEnd | quoteEnd => rfl

theorem Turn.nameSize_next {size : Nat} (turn : Turn offset c phase next given)
    (sized : next.nameSize? = some size) :
    size ≤ 1 ∨ ∃ before, phase.nameSize? = some before ∧ before ≤ size ∧ size ≤ before + 1 := by
  have kept (same : phase.nameSize? = next.nameSize?) :
      size ≤ 1 ∨ ∃ before, phase.nameSize? = some before ∧ before ≤ size ∧ size ≤ before + 1 :=
    Or.inr ⟨size,same.trans sized,Nat.le_refl _,Nat.le_succ _⟩
  cases turn with
  | tagName | dangling | quoteEnd | done => contradiction
  | tagNameEnd | gap | bare => exact Or.inl (nameSize?_readGap sized)
  | letter start chars =>
    obtain rfl := Option.some.inj sized
    exact Or.inr ⟨_,rfl,Nat.le_succ _,Nat.le_refl _⟩
  | pause named | equals named => exact kept named.nameSize
  | valuePause | mark | valueStart | valueChar | quoteChar => exact kept rfl
  | valueEnd _ _ _ ended => rcases ended with ⟨rfl,_⟩ | ⟨rfl,_⟩ <;> contradiction

theorem read_nameSize (phase : AttributePhase) (offset : Nat) (text : List Char) (attr : Attribute)
    (member : attr ∈ readAttributesFrom phase offset text) :
    attr.name.length ≤ text.length ∨ ∃ size, phase.nameSize? = some size ∧
      size ≤ attr.name.length ∧ attr.name.length ≤ size + text.length := by
  induction text generalizing phase offset with
  | nil =>
    have sized : phase.nameSize? = some attr.name.length := by
      cases phase <;> simp only [readAttributesFrom,finish,Option.toList,List.mem_singleton,
        List.not_mem_nil] at member
      all_goals subst member
      all_goals simp [nameSize?,pending?,WrittenName.ofReversed,WrittenName.bare,WrittenName.withValue]
    exact Or.inr ⟨_,sized,Nat.le_refl _,Nat.le_add_right _ _⟩
  | cons c rest ih =>
    rw [readAttributesFrom_cons] at member
    have turn := phase.step_turn offset c
    rcases List.mem_append.mp member with now | later
    · rw [Option.mem_toList.mp now] at turn
      exact Or.inr ⟨_,turn.nameSize_given,Nat.le_refl _,Nat.le_add_right _ _⟩
    · rw [List.length_cons]
      rcases ih _ _ later with short | ⟨size,sized,least,most⟩
      · exact Or.inl (by omega)
      · rcases turn.nameSize_next sized with small | ⟨before,known,le,close⟩
        · exact Or.inl (by omega)
        · exact Or.inr ⟨before,known,by omega,by omega⟩

end AttributePhase

end AccessibleMarkup.Markup
