import AccessibleMarkup.Proofs.AttributeSpelling
import Mathlib.Data.List.TakeWhile

/-! The attributes read from any text that is taken for an opening tag. Their ranges are in order and can be cut out of
the tag between characters, each name stands at the start of its attribute and each value behind its name, and what
stands in no attribute is the name of the tag, separators and what follows the bracket that ends the tag. -/
namespace AccessibleMarkup.Markup

open Text

/-- An attribute whose name stands where it starts, with its value, if one is written, behind the name. -/
structure Attribute.NamedIn (base : Nat) (text : List Char) (attr : Attribute) : Prop where
  start : attr.nameRange.start = attr.range.start
  name : Holds base text attr.nameRange attr.name.toList
  bare : attr.valueRange = none ↔ attr.quote = .bare
  value : ∀ place, attr.valueRange = some place → attr.nameRange.stop < place.start

theorem Attribute.NamedIn.append {base : Nat} {text : List Char} {attr : Attribute} (named : attr.NamedIn base text)
    (more : List Char) : attr.NamedIn base (text ++ more) :=
  ⟨named.start,named.name.append more,named.bare,named.value⟩

variable {base offset : Nat} {read : List Char} {c : Char} {phase next : AttributePhase} {given : Option Attribute}
  {attr : Attribute}

namespace WrittenName

variable {name : WrittenName} {since : List Char}

theorem Since.namedIn_bare (written : name.Since base read since) : name.bare.NamedIn base read :=
  ⟨rfl,written.holds,iff_of_true rfl rfl,fun _ given => by contradiction⟩

theorem Since.behind {front back tail : List Char} (written : name.Since base read (front ++ '=' :: (back ++ tail)))
    {start : Nat} (reached : base + byteLength read ≤ start + byteLength tail) : name.range.stop < start := by
  have length := written.length
  have positive := Char.utf8Size_pos '='
  grind

theorem Since.namedIn_withValue (written : name.Since base read since) {quote : Quote} (valued : quote ≠ .bare)
    (chars : List Char) (value : ByteRange) (stop : Nat) (behind : name.range.stop < value.start) :
    (name.withValue quote chars value stop).NamedIn base read := by
  refine ⟨rfl,written.holds,iff_of_false (by rintro ⟨⟩) valued,?_⟩
  rintro _ ⟨rfl⟩
  exact behind

end WrittenName

namespace AttributePhase

/-- A character ends the attribute that the end of the tag would cut off there. Only a closing mark makes it longer. -/
theorem Turn.finish (turn : Turn offset c phase next (some attr)) :
    ∃ stop, phase.finish offset = some { attr with range := ⟨attr.range.start,stop⟩ } := by
  cases turn with
  | bare named => cases named <;> exact ⟨_,rfl⟩
  | dangling | valueEnd | quoteEnd => exact ⟨_,rfl⟩

theorem Follows.value_length {phase : AttributePhase} {name : WrittenName} {start : Nat} {chars : List Char}
    (follows : phase.Follows base read)
    (valued : phase = .unquoted name start chars ∨ ∃ mark, phase = .quoted name mark start chars) :
    start + byteLength chars.reverse = base + byteLength read := by
  rcases valued with rfl | ⟨mark,rfl⟩ <;> obtain ⟨first,rest,rfl,named,rfl⟩ := follows
  all_goals
    grind

theorem Spelt.finish_namedIn {phase : AttributePhase} (spelt : phase.Spelt base read)
    (follows : phase.Follows base read) (attr : Attribute)
    (found : phase.finish (base + byteLength read) = some attr) : attr.NamedIn base read := by
  cases phase <;> simp only [AttributePhase.finish,reduceCtorEq] at found
  case naming start chars =>
    obtain rfl := Option.some.inj found
    exact (since_naming spelt).namedIn_bare
  case afterName name =>
    obtain rfl := Option.some.inj found
    obtain ⟨front,written,_⟩ := spelt
    exact written.namedIn_bare
  case afterEquals name =>
    obtain rfl := Option.some.inj found
    obtain ⟨front,back,written,_⟩ := spelt
    have last : name.Since base read (front ++ '=' :: (back ++ [])) := by rwa [List.append_nil]
    exact written.namedIn_withValue (by simp) _ _ _ (last.behind (Nat.le_refl _))
  case unquoted name start chars =>
    obtain rfl := Option.some.inj found
    have value := follows.value_length (Or.inl rfl)
    obtain ⟨front,back,written,_⟩ := spelt
    exact written.namedIn_withValue (by simp) _ _ _ (written.behind (Nat.le_of_eq value.symm))
  case quoted name mark start chars =>
    obtain rfl := Option.some.inj found
    have value := follows.value_length (Or.inr ⟨mark,rfl⟩)
    obtain ⟨front,back,written,_⟩ := spelt
    have reached : base + byteLength read ≤ start + byteLength (mark :: chars.reverse) := by
      grind
    exact written.namedIn_withValue (quoteOf_ne_bare mark) _ _ _ (written.behind reached)

end AttributePhase

/-- What the reader knows of the characters read while it is in a phase. -/
structure AttributePhase.Knows (base : Nat) (read : List Char) (phase : AttributePhase) : Prop where
  follows : phase.Follows base read
  started : phase.Started
  spelt : phase.Spelt base read

theorem AttributePhase.Turn.knows (turn : Turn (base + byteLength read) c phase next given)
    (knows : phase.Knows base read) : next.Knows base (read ++ [c]) :=
  ⟨turn.follows knows.follows,turn.started knows.started,turn.spelt knows.spelt⟩

theorem AttributePhase.Turn.namedIn (turn : Turn (base + byteLength read) c phase next (some attr))
    (knows : phase.Knows base read) : attr.NamedIn base read := by
  obtain ⟨stop,cut⟩ := turn.finish
  obtain ⟨start,name,bare,value⟩ := knows.spelt.finish_namedIn knows.follows _ cut
  exact ⟨start,name,bare,value⟩

theorem readAttributesFrom_namedIn (phase : AttributePhase) (read text : List Char) (knows : phase.Knows base read)
    (attr : Attribute) (member : attr ∈ readAttributesFrom phase (base + byteLength read) text) :
    attr.NamedIn base (read ++ text) :=
  readAttributesFrom_forall (fun read phase => phase.Knows base read) _ (fun turn knows => turn.knows knows)
    (fun turn knows more => ((turn.namedIn knows).append [_]).append more)
    (fun knows found => knows.spelt.finish_namedIn knows.follows _ found) phase read text knows attr member

namespace AttributePhase

def least? (phase : AttributePhase) (offset : Nat) : Option ByteRange :=
  match phase with
  | .naming start _ => some ⟨start,offset⟩
  | .afterName name => some ⟨name.range.start,min name.range.stop offset⟩
  | .afterEquals name => some ⟨name.range.start,offset⟩
  | .unquoted name _ _ => some ⟨name.range.start,offset⟩
  | .quoted name _ _ _ => some ⟨name.range.start,offset⟩
  | _ => none

/-- What an attribute in reading holds it holds after the next character, or when that character ends it. -/
theorem Turn.least (turn : Turn offset c phase next given) {range : ByteRange}
    (least : phase.least? offset = some range) :
    (∃ longer, next.least? (offset + c.utf8Size) = some longer ∧ longer.start = range.start ∧
        range.stop ≤ longer.stop) ∨
      ∃ attr, given = some attr ∧ attr.range.start = range.start ∧ range.stop ≤ attr.range.stop := by
  have after : offset ≤ offset + c.utf8Size := Nat.le_add_right _ _
  cases turn with
  | tagName inName | tagNameEnd inName => cases inName <;> contradiction
  | gap | done => contradiction
  | pause named =>
    rcases named with name | ⟨start,chars⟩ <;> obtain rfl := Option.some.inj least
    · exact Or.inl ⟨_,rfl,rfl,by dsimp only; omega⟩
    · exact Or.inl ⟨_,rfl,rfl,Nat.le_min.mpr ⟨Nat.le_refl _,after⟩⟩
  | equals named =>
    rcases named with name | ⟨start,chars⟩ <;> obtain rfl := Option.some.inj least
    · exact Or.inl ⟨_,rfl,rfl,by dsimp only; omega⟩
    · exact Or.inl ⟨_,rfl,rfl,after⟩
  | bare named =>
    rcases named with name | ⟨start,chars⟩ <;> obtain rfl := Option.some.inj least
    · exact Or.inr ⟨_,rfl,rfl,Nat.min_le_left _ _⟩
    · exact Or.inr ⟨_,rfl,rfl,Nat.le_refl _⟩
  | letter | valuePause | mark | valueStart | valueChar | quoteChar =>
    obtain rfl := Option.some.inj least
    exact Or.inl ⟨_,rfl,rfl,after⟩
  | dangling | valueEnd =>
    obtain rfl := Option.some.inj least
    exact Or.inr ⟨_,rfl,rfl,Nat.le_refl _⟩
  | quoteEnd =>
    obtain rfl := Option.some.inj least
    exact Or.inr ⟨_,rfl,rfl,Nat.le_add_right _ _⟩

theorem least_read {phase : AttributePhase} {offset : Nat} {range : ByteRange}
    (least : phase.least? offset = some range) (text : List Char) :
    ∃ attr ∈ readAttributesFrom phase offset text, attr.range.start = range.start ∧ range.stop ≤ attr.range.stop := by
  induction text generalizing phase offset range with
  | nil =>
    cases phase <;> simp only [least?,reduceCtorEq] at least
    all_goals
      obtain rfl := Option.some.inj least
      refine ⟨_,List.mem_singleton.mpr rfl,rfl,?_⟩
    case afterName => exact Nat.min_le_left _ _
    all_goals exact Nat.le_refl _
  | cons c rest ih =>
    rw [readAttributesFrom_cons]
    rcases (phase.step_turn offset c).least least with ⟨longer,further,start,stop⟩ | ⟨attr,given,held⟩
    · obtain ⟨attr,member,same,held⟩ := ih further
      exact ⟨attr,List.mem_append_right _ member,same.trans start,Nat.le_trans stop held⟩
    · rw [given]
      exact ⟨attr,List.mem_append_left _ (List.mem_singleton.mpr rfl),held⟩

def Inside : AttributePhase → Prop
  | .outside => False
  | .tagName => False
  | .done => False
  | _ => True

theorem inside_readGap (offset : Nat) (c : Char) :
    (readGap offset c).Inside ∨ readGap offset c = .done ∧ c = '>' := by
  unfold readGap
  split_ifs with bracket
  · exact Or.inr ⟨rfl,bracket⟩
  · exact Or.inl trivial
  · exact Or.inl trivial

theorem Turn.inside (turn : Turn (base + byteLength read) c phase next given) (follows : phase.Follows base read)
    (inside : phase.Inside) :
    next.Inside ∨ next = .done ∧ c = '>' ∧
      ∀ attr, given = some attr → attr.range.stop ≤ base + byteLength read := by
  have gap := inside_readGap (base + byteLength read) c
  cases turn with
  | tagName inName | tagNameEnd inName => cases inName <;> contradiction
  | gap => exact gap.imp_right fun ⟨last,bracket⟩ => ⟨last,bracket,by simp⟩
  | letter | pause | equals | valuePause | mark | valueStart | valueChar | quoteEnd | quoteChar =>
    exact Or.inl trivial
  | bare named =>
    obtain ⟨found,first,rest,rfl,start,stop⟩ := follows.nameAt named
    refine gap.imp_right fun ⟨last,bracket⟩ => ⟨last,bracket,?_⟩
    rintro _ ⟨rfl⟩
    simp only [WrittenName.bare,byteLength_append]
    omega
  | dangling name bracket =>
    refine Or.inr ⟨rfl,bracket,?_⟩
    rintro _ ⟨rfl⟩
    exact Nat.le_refl _
  | valueEnd name start chars ended =>
    rcases ended with ⟨rfl,bracket⟩ | ⟨rfl,_⟩
    · refine Or.inr ⟨rfl,bracket,?_⟩
      rintro _ ⟨rfl⟩
      exact Nat.le_refl _
    · exact Or.inl trivial
  | done => contradiction

theorem Follows.earliest_le {phase : AttributePhase} (follows : phase.Follows base read) :
    phase.earliest (base + byteLength read) ≤ base + byteLength read := by
  cases phase with
  | naming start chars =>
    obtain ⟨first,rest,rfl,rfl⟩ := follows
    simp [earliest]
  | afterName name =>
    obtain ⟨found,first,rest,rfl,start,_⟩ := follows
    simp [earliest,start]
  | afterEquals name =>
    obtain ⟨first,rest,rfl,start⟩ := follows
    simp [earliest,start]
  | unquoted name _ _ =>
    obtain ⟨first,rest,rfl,start,_⟩ := follows
    simp [earliest,start]
  | quoted name _ _ _ =>
    obtain ⟨first,rest,rfl,start,_⟩ := follows
    simp [earliest,start]
  | _ => exact Nat.le_refl _

theorem Turn.stop_le (turn : Turn (base + byteLength read) c phase next (some attr))
    (follows : phase.Follows base read) : attr.range.stop ≤ base + byteLength (read ++ [c]) := by
  have ended := (turn.order follows).2
  rw [← add_byteLength_concat] at ended
  exact Nat.le_trans ended (turn.follows follows).earliest_le

/-- A character that separates nothing belongs to an attribute. -/
theorem Turn.shown (turn : Turn (base + byteLength read) c phase next given) (follows : phase.Follows base read)
    (started : phase.Started) (inside : phase.Inside) (continues : endsName c = false) (unequal : c ≠ '=') :
    ∃ start, next.least? (base + byteLength read + c.utf8Size) =
        some ⟨start,base + byteLength read + c.utf8Size⟩ ∧ start ≤ base + byteLength read := by
  have before := follows.earliest_le
  have space := isMarkupSpace_of_continues continues
  have bracket : c ≠ '>' := by
    rintro rfl
    contradiction
  have gap : readGap (base + byteLength read) c = .naming (base + byteLength read) [c] := by
    simp [readGap,bracket,continues,unequal]
  cases turn with
  | tagName inName | tagNameEnd inName => cases inName <;> contradiction
  | gap | bare =>
    rw [gap]
    exact ⟨_,rfl,Nat.le_refl _⟩
  | pause _ blank =>
    rw [space] at blank
    contradiction
  | equals | dangling | done => contradiction
  | letter | valuePause | mark | valueStart | valueChar | quoteChar => exact ⟨_,rfl,before⟩
  | valueEnd _ _ _ ended => simp [space,bracket] at ended
  | quoteEnd => rcases started with rfl | rfl <;> contradiction

end AttributePhase

theorem readAttributesFrom_covers (phase : AttributePhase) (read text : List Char) (follows : phase.Follows base read)
    (started : phase.Started) (inside : phase.Inside) (front back : List Char) (c : Char)
    (parts : text = front ++ c :: back) (continues : endsName c = false) (equals : c ≠ '=') :
    let attributes := readAttributesFrom phase (base + byteLength read) text
    (∃ attr ∈ attributes, attr.range.contains (base + byteLength (read ++ front)) = true) ∨
      ∃ before between, front = before ++ '>' :: between ∧
        ∀ attr ∈ attributes, attr.range.contains (base + byteLength (read ++ before)) = false := by
  intro attributes
  induction text generalizing phase read front with
  | nil => simp at parts
  | cons d rest ih =>
    have turn := phase.step_turn (base + byteLength read) d
    have kept := turn.follows follows
    have size := (add_byteLength_concat base read d).symm
    have split : attributes = (phase.step (base + byteLength read) d).2.toList ++
        readAttributesFrom (phase.step (base + byteLength read) d).1 (base + byteLength (read ++ [d])) rest := by
      rw [← size]
      exact readAttributesFrom_cons _ _ _ _
    cases front with
    | nil =>
      obtain ⟨rfl,rfl⟩ := List.cons.inj parts
      obtain ⟨start,least,before⟩ := turn.shown follows started inside continues equals
      obtain ⟨attr,member,same,held⟩ := AttributePhase.least_read least rest
      have positive := Char.utf8Size_pos d
      rw [size] at member
      refine Or.inl ⟨attr,by rw [split]; exact List.mem_append_right _ member,?_⟩
      simp only [ByteRange.contains,List.append_nil,Bool.and_eq_true,decide_eq_true_eq]
      dsimp only at same held
      omega
    | cons e front =>
      obtain ⟨rfl,rfl⟩ := List.cons.inj parts
      have whole (front : List Char) : read ++ d :: front = (read ++ [d]) ++ front := by simp
      rcases turn.inside follows inside with further | ⟨last,rfl,ended⟩
      · rcases ih _ _ kept (turn.started started) further front rfl with
          ⟨attr,member,held⟩ | ⟨before,between,rfl,free⟩
        · refine Or.inl ⟨attr,by rw [split]; exact List.mem_append_right _ member,?_⟩
          rw [whole]
          exact held
        · refine Or.inr ⟨d :: before,between,rfl,fun attr member => ?_⟩
          rw [split] at member
          rw [whole]
          rcases List.mem_append.mp member with now | later
          · rw [Option.mem_toList.mp now] at turn
            have stop := turn.stop_le follows
            simp only [ByteRange.contains,byteLength_append,Bool.and_eq_false_iff,decide_eq_false_iff_not] at stop ⊢
            omega
          · exact free attr later
      · refine Or.inr ⟨[],front,rfl,fun attr member => ?_⟩
        rw [split,last,AttributePhase.read_done,List.append_nil,Option.mem_toList] at member
        have stop := ended attr member
        simp only [ByteRange.contains,List.append_nil,Bool.and_eq_false_iff,decide_eq_false_iff_not]
        omega

def tagFront : List Char → List Char
  | '<' :: rest => '<' :: rest.takeWhile (!endsName ·)
  | tag => tag.takeWhile (!endsName ·)

theorem readAttributesFrom_afterName (text : List Char) (offset : Nat) :
    readAttributesFrom .tagName offset text =
      readAttributesFrom .gap (offset + byteLength (text.takeWhile (!endsName ·))) (text.dropWhile (!endsName ·)) := by
  have continues : ∀ c ∈ text.takeWhile (!endsName ·), endsName c = false := by
    intro c member
    simpa using List.mem_takeWhile_imp member
  have ended : ∀ c, (text.dropWhile (!endsName ·)).head? = some c → endsName c = true := by
    intro c head
    have first := List.head?_dropWhile_not (!endsName ·) text
    rw [head] at first
    simpa using first
  rw [← readAttributesFrom_nameEnd _ _ ended,← readAttributesFrom_tagName _ _ _ continues,
    List.takeWhile_append_dropWhile]

theorem readAttributes_front (tag : List Char) (base : Nat) :
    ∃ body, tag = tagFront tag ++ body ∧
      readAttributes tag base = readAttributesFrom .gap (base + byteLength (tagFront tag)) body := by
  unfold tagFront
  split
  next rest =>
    refine ⟨rest.dropWhile (!endsName ·),by simp,?_⟩
    rw [byteLength_cons,← Nat.add_assoc,← readAttributesFrom_afterName]
    rfl
  next plain =>
    refine ⟨tag.dropWhile (!endsName ·),by simp,?_⟩
    rw [← readAttributesFrom_afterName]
    cases tag with
    | nil => rfl
    | cons c rest =>
      have other : c ≠ '<' := fun bracket => plain rest (by rw [bracket])
      rw [readAttributes,readAttributesFrom_cons,readAttributesFrom_cons]
      simp [AttributePhase.step,other]

/-- The characters that separate names and values in a tag, or end it, and the equals sign. -/
def nameEnds : List Char := [' ','\t','\n','\x0c','\r','>','/','"','\'','=']

theorem not_mem_nameEnds {c : Char} : c ∉ nameEnds ↔ endsName c = false ∧ c ≠ '=' := by
  simp [nameEnds,endsName,isMarkupSpace,and_assoc]

/-- What an attribute read from a tag at an offset of its document promises. -/
structure Attribute.ReadFrom (base : Nat) (tag : List Char) (attr : Attribute) : Prop where
  inside : base ≤ attr.range.start ∧ attr.range.stop ≤ base + byteLength tag
  cut : ∃ chars, slice? tag (attr.range.start - base) (attr.range.stop - base) = some chars
  first : attr.nameRange.start = attr.range.start
  named : attr.nameRange.start < attr.nameRange.stop ∧ attr.nameRange.stop ≤ attr.range.stop
  name : slice? tag (attr.nameRange.start - base) (attr.nameRange.stop - base) = some attr.name.toList
  letters : ∀ c ∈ attr.name.toList, c ∉ nameEnds
  bare : attr.valueRange = none ↔ attr.quote = .bare
  unvalued : attr.valueRange = none → attr.value = ""
  behind : ∀ place, attr.valueRange = some place →
    attr.nameRange.stop < place.start ∧ place.start ≤ place.stop ∧ place.stop ≤ attr.range.stop
  value : ∀ place, attr.valueRange = some place →
    slice? tag (place.start - base) (place.stop - base) = some attr.value.toList

theorem Attribute.NamedIn.readFrom {tag : List Char} {attr : Attribute} (named : attr.NamedIn base tag)
    (stands : attr.StandsIn base tag) (spelt : attr.SpeltIn base tag) : attr.ReadFrom base tag := by
  obtain ⟨nonempty,letters⟩ := spelt.named
  obtain ⟨chars,holds,spelling⟩ := spelt.spelt
  obtain ⟨_,_,nameSliced⟩ := named.name.sliced
  obtain ⟨after,before,sliced⟩ := holds.sliced
  have positive := byteLength_pos nonempty
  have shorter := spelling.byteLength_le
  have start := named.start
  obtain ⟨_,_,_,_,nameStop⟩ := named.name
  obtain ⟨_,_,_,_,stop⟩ := holds
  refine ⟨⟨after,before⟩,⟨chars,sliced⟩,start,⟨by omega,by omega⟩,nameSliced,
    fun c member => not_mem_nameEnds.mpr (letters c member),named.bare,fun none => ?_,fun place given => ?_,
    fun place given => ?_⟩
  · exact String.toList_eq_nil_iff.mp (spelling.value_of_bare (named.bare.mp none))
  · obtain ⟨⟨_,_,_,_,ended⟩,_,within⟩ := stands.value place given
    exact ⟨named.value place given,by omega,within⟩
  · exact (stands.value place given).1.sliced.2.2

/-- What the attributes read from a tag promise together. -/
structure AttributeSequence (base : Nat) (tag : List Char) (attributes : List Attribute) : Prop where
  read : ∀ attr ∈ attributes, attr.ReadFrom base tag
  apart : attributes.Pairwise fun first second => first.range.stop ≤ second.range.start
  /-- Behind its name the tag has nothing outside attributes but separators, up to a bracket outside them. -/
  covers : ∀ (front back : List Char) (c : Char), tag = tagFront tag ++ (front ++ c :: back) → c ∉ nameEnds →
    (∃ attr ∈ attributes, attr.range.contains (base + byteLength (tagFront tag ++ front)) = true) ∨
      ∃ before between, front = before ++ '>' :: between ∧
        ∀ attr ∈ attributes, attr.range.contains (base + byteLength (tagFront tag ++ before)) = false

/-- Reading the attributes of any text that is taken for an opening tag ends and finds attributes that stand in order
between characters of the text. -/
theorem readAttributes_sequence (tag : List Char) (base : Nat) :
    AttributeSequence base tag (readAttributes tag base) := by
  obtain ⟨body,parts,read⟩ := readAttributes_front tag base
  have knows : AttributePhase.gap.Knows base (tagFront tag) := ⟨trivial,trivial,trivial⟩
  rw [read]
  refine ⟨fun attr member => ?_,?_,fun front back c split letter => ?_⟩
  · rw [parts]
    have stands := readAttributesFrom_standsIn base .gap (tagFront tag) body knows.follows knows.started attr member
    have spelt := readAttributesFrom_speltIn .gap (tagFront tag) body knows.spelt attr member
    exact (readAttributesFrom_namedIn .gap (tagFront tag) body knows attr member).readFrom stands spelt
  · exact (readAttributesFrom_inOrder base .gap (tagFront tag) body knows.follows knows.started).2
  · have same : body = front ++ c :: back := List.append_cancel_left (parts.symm.trans split)
    obtain ⟨continues,equals⟩ := not_mem_nameEnds.mp letter
    exact readAttributesFrom_covers .gap (tagFront tag) body knows.follows knows.started trivial front back c same
      continues equals

example : readAttributes "<p \"é = 'ü".toList 5 =
    [⟨"é","ü",.single,⟨9,17⟩,⟨9,11⟩,some ⟨15,17⟩⟩] := by
  decide

end AccessibleMarkup.Markup
