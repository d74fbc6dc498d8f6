import AccessibleMarkup.Proofs.AttributeReading
import AccessibleMarkup.Proofs.ByteSlices

/-! Where attributes stand in a tag. The range of an attribute and the range of its value lie between
characters of the tag, the value is what stands in its range, and attributes do not overlap. -/
namespace AccessibleMarkup.Markup

open Text

def Holds (base : Nat) (text : List Char) (range : ByteRange) (found : List Char) : Prop :=
  ∃ before after, text = before ++ (found ++ after) ∧ range.start = base + byteLength before ∧
    range.stop = range.start + byteLength found

theorem Holds.append {base : Nat} {text found : List Char} {range : ByteRange}
    (holds : Holds base text range found) (more : List Char) : Holds base (text ++ more) range found := by
  obtain ⟨before,after,rfl,start,stop⟩ := holds
  exact ⟨before,after ++ more,by simp,start,stop⟩

/-- A range that holds characters can be cut out between them. -/
theorem Holds.sliced {base : Nat} {text found : List Char} {range : ByteRange}
    (holds : Holds base text range found) :
    base ≤ range.start ∧ range.stop ≤ base + byteLength text ∧
      slice? text (range.start - base) (range.stop - base) = some found := by
  obtain ⟨before,after,rfl,start,stop⟩ := holds
  have first : range.start - base = byteLength before := by omega
  have last : range.stop - base = byteLength before + byteLength found := by omega
  refine ⟨by omega,?_,?_⟩
  · grind
  · rw [first,last]
    exact slice?_append before found after

/-- An attribute of a text that starts at an offset, with its value. -/
structure Attribute.StandsIn (base : Nat) (text : List Char) (attr : Attribute) : Prop where
  range : ∃ found, Holds base text attr.range found
  value : ∀ value, attr.valueRange = some value → Holds base text value attr.value.toList ∧
    attr.range.start ≤ value.start ∧ value.stop ≤ attr.range.stop

theorem Attribute.StandsIn.append {base : Nat} {text : List Char} {attr : Attribute}
    (stands : attr.StandsIn base text) (more : List Char) : attr.StandsIn base (text ++ more) := by
  obtain ⟨⟨found,range⟩,value⟩ := stands
  refine ⟨⟨found,range.append more⟩,fun place same => ?_⟩
  obtain ⟨holds,inside⟩ := value place same
  exact ⟨holds.append more,inside⟩

variable {base : Nat} {read : List Char} {c : Char} {phase next : AttributePhase} {given : Option Attribute}
  {attr : Attribute} {name : WrittenName}

namespace AttributePhase

def Follows (base : Nat) (read : List Char) : AttributePhase → Prop
  | .naming start _ => ∃ first rest, read = first ++ rest ∧ start = base + byteLength first
  | .afterName name => ∃ found, Holds base read name.range found
  | .afterEquals name => ∃ first rest, read = first ++ rest ∧ name.range.start = base + byteLength first
  | .unquoted name start chars => ∃ first rest, read = first ++ (rest ++ chars.reverse) ∧
      name.range.start = base + byteLength first ∧ start = name.range.start + byteLength rest
  | .quoted name _ start chars => ∃ first rest, read = first ++ (rest ++ chars.reverse) ∧
      name.range.start = base + byteLength first ∧ start = name.range.start + byteLength rest
  | _ => True

theorem follows_readGap (base : Nat) (read : List Char) (c : Char) :
    (readGap (base + byteLength read) c).Follows base (read ++ [c]) := by
  unfold readGap
  split_ifs
  · trivial
  · trivial
  · exact ⟨read,[c],rfl,rfl⟩

theorem standsIn_bare (base : Nat) (read : List Char) (name : WrittenName)
    (holds : ∃ found, Holds base read name.range found) : name.bare.StandsIn base read :=
  ⟨holds,by simp [WrittenName.bare]⟩

theorem standsIn_withValue (base : Nat) (first rest chars tail : List Char) (name : WrittenName)
    (quote : Quote) (value : ByteRange) (stop : Nat)
    (named : name.range.start = base + byteLength first)
    (start : value.start = name.range.start + byteLength rest)
    (ended : value.stop = value.start + byteLength chars.reverse)
    (stopped : stop = value.stop + byteLength tail) :
    (name.withValue quote chars value stop).StandsIn base (first ++ (rest ++ (chars.reverse ++ tail))) := by
  refine ⟨⟨rest ++ (chars.reverse ++ tail),first,[],by simp,named,?_⟩,?_⟩
  · simp only [WrittenName.withValue,byteLength_append]
    omega
  · rintro _ ⟨rfl⟩
    refine ⟨⟨first ++ rest,tail,?_,?_,?_⟩,?_,?_⟩
    · simp [WrittenName.withValue]
    · grind
    · simpa [WrittenName.withValue] using ended
    · simp only [WrittenName.withValue]
      omega
    · simp only [WrittenName.withValue]
      omega

theorem standsIn_cut (base : Nat) (first rest chars : List Char) (name : WrittenName) (quote : Quote)
    (start stop : Nat) (named : name.range.start = base + byteLength first)
    (started : start = name.range.start + byteLength rest)
    (stopped : stop = base + byteLength (first ++ (rest ++ chars.reverse))) :
    (name.withValue quote chars ⟨start,stop⟩ stop).StandsIn base (first ++ (rest ++ chars.reverse)) := by
  rw [byteLength_append,byteLength_append] at stopped
  have stands := standsIn_withValue base first rest chars [] name quote ⟨start,stop⟩ stop named started
    (by dsimp only; omega) (by simp)
  rwa [List.append_nil] at stands

/-- A name that has been read is part of the characters read. -/
theorem Follows.nameAt {phase : AttributePhase} (follows : phase.Follows base read)
    (named : NameAt (base + byteLength read) phase name) : ∃ found, Holds base read name.range found := by
  cases named with
  | afterName => exact follows
  | naming start chars =>
    obtain ⟨first,rest,rfl,rfl⟩ := follows
    exact ⟨rest,first,[],by simp,rfl,by simp [WrittenName.ofReversed,Nat.add_assoc]⟩

theorem Turn.follows (turn : Turn (base + byteLength read) c phase next given)
    (follows : phase.Follows base read) : next.Follows base (read ++ [c]) := by
  cases turn with
  | tagName | dangling | quoteEnd | done => trivial
  | tagNameEnd | gap | bare => exact follows_readGap base read c
  | letter start chars =>
    obtain ⟨first,rest,rfl,rfl⟩ := follows
    exact ⟨first,rest ++ [c],by simp,rfl⟩
  | pause named =>
    obtain ⟨found,holds⟩ := follows.nameAt named
    exact ⟨found,holds.append [c]⟩
  | equals named =>
    obtain ⟨found,first,rest,rfl,start,_⟩ := follows.nameAt named
    exact ⟨first,(found ++ rest) ++ [c],by simp,start⟩
  | valuePause name =>
    obtain ⟨first,rest,rfl,start⟩ := follows
    exact ⟨first,rest ++ [c],by simp,start⟩
  | mark name isMark =>
    obtain ⟨first,rest,rfl,start⟩ := follows
    have one := utf8Size_of_isMark isMark
    refine ⟨first,rest ++ [c],by simp,start,?_⟩
    grind
  | valueStart name =>
    obtain ⟨first,rest,rfl,start⟩ := follows
    exact ⟨first,rest,by simp,start,by simp; omega⟩
  | valueEnd _ _ _ ended => rcases ended with ⟨rfl,_⟩ | ⟨rfl,_⟩ <;> trivial
  | valueChar name start chars | quoteChar name mark start chars =>
    obtain ⟨first,rest,rfl,named,rfl⟩ := follows
    exact ⟨first,rest,by simp,named,rfl⟩

theorem Turn.standsIn (turn : Turn (base + byteLength read) c phase next (some attr)) (started : phase.Started)
    (follows : phase.Follows base read) : attr.StandsIn base (read ++ [c]) := by
  cases turn with
  | bare named => exact (standsIn_bare base read _ (follows.nameAt named)).append [c]
  | dangling name =>
    obtain ⟨first,rest,rfl,start⟩ := follows
    have stands := standsIn_cut base first rest [] name .unquoted (base + byteLength (first ++ rest))
      (base + byteLength (first ++ rest)) start (by simp; omega) (by simp)
    simpa using stands.append [c]
  | valueEnd name start chars =>
    obtain ⟨first,rest,rfl,named,rfl⟩ := follows
    exact (standsIn_cut base first rest chars name .unquoted _ _ named rfl rfl).append [c]
  | quoteEnd name start chars =>
    obtain ⟨first,rest,rfl,named,rfl⟩ := follows
    have one := utf8Size_of_isMark started
    have stands := standsIn_withValue base first rest chars [c] name (quoteOf c)
      ⟨name.range.start + byteLength rest,base + byteLength (first ++ (rest ++ chars.reverse))⟩
      (base + byteLength (first ++ (rest ++ chars.reverse)) + 1) named rfl (by simp; omega) (by simp; omega)
    simpa using stands

theorem Follows.finish {base : Nat} {read : List Char} {phase : AttributePhase}
    (follows : phase.Follows base read) (attr : Attribute)
    (found : phase.finish (base + byteLength read) = some attr) : attr.StandsIn base read := by
  cases phase <;> simp only [AttributePhase.finish,reduceCtorEq] at found
  case naming start chars =>
    obtain rfl := Option.some.inj found
    obtain ⟨first,rest,rfl,rfl⟩ := follows
    exact standsIn_bare base _ _ ⟨rest,first,[],by simp,rfl,by simp [WrittenName.ofReversed,Nat.add_assoc]⟩
  case afterName name =>
    obtain rfl := Option.some.inj found
    exact standsIn_bare base read name follows
  case afterEquals name =>
    obtain rfl := Option.some.inj found
    obtain ⟨first,rest,rfl,start⟩ := follows
    have stands := standsIn_cut base first rest [] name .unquoted (base + byteLength (first ++ rest))
      (base + byteLength (first ++ rest)) start (by simp; omega) (by simp)
    simpa using stands
  all_goals
    obtain rfl := Option.some.inj found
    obtain ⟨first,rest,rfl,named,rfl⟩ := follows
    exact standsIn_cut base first rest _ _ _ _ _ named rfl rfl

end AttributePhase

/-- What is true of each attribute when a character ends it, whatever follows, or when the end of the tag
cuts it off, is true of all attributes. -/
theorem readAttributesFrom_forall {base : Nat} (keeps : List Char → AttributePhase → Prop)
    (good : List Char → Attribute → Prop)
    (step : ∀ {read c phase next given}, AttributePhase.Turn (base + byteLength read) c phase next given →
      keeps read phase → keeps (read ++ [c]) next)
    (ends : ∀ {read c phase next attr}, AttributePhase.Turn (base + byteLength read) c phase next (some attr) →
      keeps read phase → ∀ more, good ((read ++ [c]) ++ more) attr)
    (finish : ∀ {read phase attr}, keeps read phase → phase.finish (base + byteLength read) = some attr →
      good read attr)
    (phase : AttributePhase) (read text : List Char) (start : keeps read phase) (attr : Attribute)
    (member : attr ∈ readAttributesFrom phase (base + byteLength read) text) : good (read ++ text) attr := by
  induction text generalizing phase read with
  | nil =>
    rw [readAttributesFrom,Option.mem_toList] at member
    rw [List.append_nil]
    exact finish start member
  | cons c rest ih =>
    have turn := phase.step_turn (base + byteLength read) c
    have whole : read ++ c :: rest = (read ++ [c]) ++ rest := by simp
    rw [readAttributesFrom_cons,← add_byteLength_concat] at member
    rw [whole]
    rcases List.mem_append.mp member with now | later
    · rw [Option.mem_toList.mp now] at turn
      exact ends turn start rest
    · exact ih _ _ (step turn start) later

theorem readAttributesFrom_standsIn (base : Nat) (phase : AttributePhase) (read text : List Char)
    (follows : phase.Follows base read) (started : phase.Started) (attr : Attribute)
    (member : attr ∈ readAttributesFrom phase (base + byteLength read) text) :
    attr.StandsIn base (read ++ text) :=
  readAttributesFrom_forall (fun read phase => phase.Follows base read ∧ phase.Started) _
    (fun turn kept => ⟨turn.follows kept.1,turn.started kept.2⟩)
    (fun turn kept more => (turn.standsIn kept.2 kept.1).append more) (fun kept found => kept.1.finish _ found)
    phase read text ⟨follows,started⟩ attr member

namespace AttributePhase

/-- Where the next attribute starts at the earliest: with the name that has been read, or here. -/
def earliest (phase : AttributePhase) (offset : Nat) : Nat :=
  match phase with
  | .naming start _ => start
  | .afterName name => name.range.start
  | .afterEquals name => name.range.start
  | .unquoted name _ _ => name.range.start
  | .quoted name _ _ _ => name.range.start
  | _ => offset

theorem le_earliest_readGap (offset size : Nat) (c : Char) :
    offset ≤ (readGap offset c).earliest (offset + size) := by
  unfold readGap
  split_ifs <;> simp [earliest]

theorem NameAt.earliest {offset : Nat} (named : NameAt offset phase name) (further : Nat) :
    phase.earliest further = name.range.start := by
  cases named <;> rfl

theorem Turn.earliest_le {offset : Nat} (turn : Turn offset c phase next none) :
    phase.earliest offset ≤ next.earliest (offset + c.utf8Size) := by
  have gap := le_earliest_readGap offset c.utf8Size c
  cases turn with
  | tagName inName => cases inName <;> exact Nat.le_add_right _ _
  | tagNameEnd inName => cases inName <;> exact gap
  | gap => exact gap
  | pause named | equals named => exact Nat.le_of_eq (named.earliest offset)
  | letter | valuePause | mark | valueStart | valueChar | quoteChar => exact Nat.le_refl _
  | done => exact Nat.le_add_right _ _

theorem Turn.order (turn : Turn (base + byteLength read) c phase next (some attr))
    (follows : phase.Follows base read) :
    phase.earliest (base + byteLength read) ≤ attr.range.start ∧
      attr.range.stop ≤ next.earliest (base + byteLength read + c.utf8Size) := by
  cases turn with
  | bare named =>
    have gap := le_earliest_readGap (base + byteLength read) c.utf8Size c
    obtain ⟨found,first,rest,rfl,start,stop⟩ := follows.nameAt named
    refine ⟨Nat.le_of_eq (named.earliest _),Nat.le_trans ?_ gap⟩
    simp only [WrittenName.bare,byteLength_append]
    omega
  | dangling => exact ⟨Nat.le_refl _,Nat.le_add_right _ _⟩
  | valueEnd _ _ _ ended =>
    rcases ended with ⟨rfl,_⟩ | ⟨rfl,_⟩ <;> exact ⟨Nat.le_refl _,Nat.le_add_right _ _⟩
  | quoteEnd => exact ⟨Nat.le_refl _,Nat.add_le_add_left (Char.utf8Size_pos c) _⟩

theorem earliest_le_finish (phase : AttributePhase) (offset : Nat) (attr : Attribute)
    (found : phase.finish offset = some attr) : phase.earliest offset ≤ attr.range.start := by
  cases phase <;> simp only [AttributePhase.finish,reduceCtorEq] at found <;>
    (obtain rfl := Option.some.inj found) <;> exact Nat.le_refl _

end AttributePhase

theorem readAttributesFrom_inOrder (base : Nat) (phase : AttributePhase) (read text : List Char)
    (follows : phase.Follows base read) (started : phase.Started) :
    (∀ attr ∈ readAttributesFrom phase (base + byteLength read) text,
        phase.earliest (base + byteLength read) ≤ attr.range.start) ∧
      (readAttributesFrom phase (base + byteLength read) text).Pairwise
        fun first second => first.range.stop ≤ second.range.start := by
  induction text generalizing phase read with
  | nil =>
    rw [readAttributesFrom]
    refine ⟨fun attr member => ?_,?_⟩
    · exact phase.earliest_le_finish _ attr (Option.mem_toList.mp member)
    · cases phase.finish (base + byteLength read) <;> simp
  | cons c rest ih =>
    have turn := phase.step_turn (base + byteLength read) c
    have size := (add_byteLength_concat base read c).symm
    obtain ⟨later,sorted⟩ := ih _ _ (turn.follows follows) (turn.started started)
    rw [readAttributesFrom_cons,size]
    cases given : (phase.step (base + byteLength read) c).2 with
    | none =>
      rw [given] at turn
      have order := turn.earliest_le
      rw [size] at order
      exact ⟨fun attr member => Nat.le_trans order (later attr member),sorted⟩
    | some attr =>
      rw [given] at turn
      obtain ⟨before,ended⟩ := turn.order follows
      rw [size] at ended
      obtain ⟨⟨found,_,_,_,_,stop⟩,_⟩ := turn.standsIn started follows
      refine ⟨fun other member => ?_,List.pairwise_cons.mpr ⟨fun other member => ?_,sorted⟩⟩
      · rcases List.mem_cons.mp member with rfl | after
        · exact before
        · have further := Nat.le_trans ended (later other after)
          omega
      · exact Nat.le_trans ended (later other member)

end AccessibleMarkup.Markup
