import AccessibleMarkup.Proofs.LexerPhases

/-! Elements under other tag names. If the names in the opening and the closing tag of an element are replaced by
names of the same length, the text is lexed alike but for these names, and what stands outside the tags stays. -/
namespace AccessibleMarkup.Markup

open Text

/-- A name for tags that neither starts nor ends raw text. -/
structure TagName (name : List Char) : Prop where
  letter : ∃ c rest, name = c :: rest ∧ c.isAlpha = true
  written : ∀ c ∈ name, isNameChar c = true
  cooked : RawElement.ofName? (String.ofList name) = none

def Tag.withName (tag : Tag) (name : String) : Tag := { tag with name }

namespace LexPhase

theorem run_shift (move : Nat → Nat) (phase : LexPhase) (offset : Nat) (text : List Char)
    (translated : ∀ count, move (offset + count) = move offset + count) :
    (phase.shift move).run (move offset) text =
      ((phase.run offset text).1.map (·.shift move),(phase.run offset text).2.shift move) := by
  induction text generalizing phase offset with
  | nil => rfl
  | cons c rest ih =>
    have later (count : Nat) : move (offset + c.utf8Size + count) = move (offset + c.utf8Size) + count := by
      rw [Nat.add_assoc,translated,translated,Nat.add_assoc]
    rw [run_cons,run_cons,shift_step move phase offset c (translated 1),← translated c.utf8Size,ih _ _ later]
    cases (phase.step offset c).2 <;> simp

end LexPhase

theorem ready_of_afterBlank {read : List Char} (plain : (phaseAfter read).afterBlank = .text) : Ready read := by
  change (phaseAfter read).step (byteLength read) '<' = (.bracket (byteLength read),none)
  cases phase : phaseAfter read with
  | text => rfl
  | bracket start => rfl
  | bracketSlash start => rfl
  | openingInterior start name interior =>
    rw [phase] at plain
    cases interior <;> contradiction
  | markup start interior =>
    rw [phase,LexPhase.afterBlank,LexPhase.step] at plain
    cases next : interior.next? ' ' with
    | some inside =>
      rw [next] at plain
      contradiction
    | none => exact absurd (MarkupInterior.next?_none next) (by decide)
  | rawName element start name =>
    rw [phase,LexPhase.afterBlank,LexPhase.step,if_neg (by decide)] at plain
    split_ifs at plain <;> contradiction
  | _ =>
    rw [phase] at plain
    contradiction

theorem ready_append_iff {before : List Char} (plain : phaseAfter before = .text) (content : List Char) :
    Ready (before ++ content) ↔ Ready content := by
  let move (offset : Nat) : Nat := byteLength before + offset
  have moved := LexPhase.run_shift move .text 0 content fun count => by simp [move]
  have phase : phaseAfter (before ++ content) = (phaseAfter content).shift move := by
    rw [phaseAfter_append,plain]
    exact congrArg Prod.snd moved
  have stepped := LexPhase.shift_step move (phaseAfter content) (byteLength content) '<' (Nat.add_assoc _ _ _).symm
  have whole : byteLength (before ++ content) = move (byteLength content) := byteLength_append before content
  change (phaseAfter (before ++ content)).step (byteLength (before ++ content)) '<' = _ ↔
    (phaseAfter content).step (byteLength content) '<' = _
  rw [phase,whole,stepped]
  rcases (phaseAfter content).step (byteLength content) '<' with ⟨next,_ | tag⟩
  · cases next <;> simp [LexPhase.shift,move]
  · simp

theorem Ready.run_opening {before name : List Char} (ready : Ready before)
    (letter : ∃ c rest, name = c :: rest ∧ c.isAlpha = true) (written : ∀ c ∈ name, isNameChar c = true)
    (inner : List Char) (slash : Bool) (ending : tagEnding? inner = some slash) :
    LexPhase.run .text 0 (before ++ '<' :: (name ++ inner)) = ((LexPhase.run .text 0 before).1 ++
      [⟨.opening slash,String.ofList name,byteLength before,
        byteLength before + 1 + byteLength name + byteLength inner,true⟩],
      LexPhase.afterOpening (String.ofList name) slash) := by
  have lexed (after : List Char) := ready.lex_tag name inner after letter written slash ending
  have read (after : List Char) : before ++ '<' :: (name ++ (inner ++ after)) =
      (before ++ '<' :: (name ++ inner)) ++ after := by simp
  have phase : phaseAfter (before ++ '<' :: (name ++ inner)) =
      LexPhase.afterOpening (String.ofList name) slash := by
    have stop : byteLength before + 1 + byteLength name + byteLength inner =
        byteLength (before ++ '<' :: (name ++ inner)) := by
      grind
    have member : (⟨.opening slash,String.ofList name,byteLength before,
        byteLength before + 1 + byteLength name + byteLength inner,true⟩ : Tag) ∈
        lex ((before ++ '<' :: (name ++ inner)) ++ [' ']) := by
      rw [← read,lexed]
      exact List.mem_append_right _ List.mem_cons_self
    exact phaseAfter_behind (mem_run_of_ended member stop.le (List.cons_ne_nil _ _)) stop
  have tags := lexed []
  have none (offset : Nat) : (LexPhase.afterOpening (String.ofList name) slash).finish offset = none := by
    by_contra some
    obtain ⟨tag,found⟩ := Option.ne_none_iff_exists'.mp some
    have pending := (LexPhase.finish_some _ _ tag found).1
    rw [LexPhase.afterOpening_start?] at pending
    contradiction
  rw [phaseAfter] at phase
  rw [read,List.append_nil,lex,lexFrom_eq_run,phase,none] at tags
  exact Prod.ext (by simpa [lexFrom,none] using tags) phase

theorem Ready.run_tag {before name : List Char} (ready : Ready before) (named : TagName name) (inner : List Char)
    (slash : Bool) (ending : tagEnding? inner = some slash) :
    LexPhase.run .text 0 (before ++ '<' :: (name ++ inner)) = ((LexPhase.run .text 0 before).1 ++
      [⟨.opening slash,String.ofList name,byteLength before,
        byteLength before + 1 + byteLength name + byteLength inner,true⟩],.text) := by
  rw [ready.run_opening named.letter named.written inner slash ending,LexPhase.afterOpening,named.cooked]
  exact Prod.ext rfl (ite_self _)

theorem lexFrom_closingInterior (start offset : Nat) (rest : List Char) :
    ∃ stop terminated more, offset ≤ stop ∧ ∀ name,
      lexFrom (.closingInterior start name) offset rest = ⟨.closing,name,start,stop,terminated⟩ :: more := by
  induction rest generalizing offset with
  | nil => exact ⟨offset,false,[],le_rfl,fun _ => rfl⟩
  | cons c rest ih =>
    by_cases bracket : c = '>'
    · exact ⟨offset + 1,true,_,by omega,fun name => by rw [lexFrom,LexPhase.step,if_pos bracket]; rfl⟩
    · obtain ⟨stop,terminated,more,later,lexed⟩ := ih (offset + c.utf8Size)
      exact ⟨stop,terminated,more,by omega,fun name => by
        rw [lexFrom,LexPhase.step,if_neg bracket]
        exact lexed name⟩

theorem lexFrom_afterClosingName (start offset : Nat) (rest : List Char)
    (ended : ∀ c, rest.head? = some c → isNameChar c = false) :
    ∃ stop terminated more, offset ≤ stop ∧ ∀ read,
      lexFrom (.closingName start read) offset rest =
        ⟨.closing,LexPhase.nameOf read,start,stop,terminated⟩ :: more := by
  cases rest with
  | nil => exact ⟨offset,false,[],le_rfl,fun _ => rfl⟩
  | cons c rest =>
    have other : ¬ isNameChar c = true := by simp [ended c rfl]
    obtain ⟨stop,terminated,more,later,lexed⟩ := lexFrom_closingInterior start offset (c :: rest)
    refine ⟨stop,terminated,more,later,fun read => ?_⟩
    rw [← lexed,lexFrom,lexFrom,LexPhase.step,LexPhase.step,if_neg other]
    rfl

theorem lex_closing (start size : Nat) (rest : List Char)
    (ended : ∀ c, rest.head? = some c → isNameChar c = false) :
    ∃ stop terminated more, start + 2 + size ≤ stop ∧
      ∀ before name, Ready before → byteLength before = start → TagName name → byteLength name = size →
        lex (before ++ '<' :: '/' :: (name ++ rest)) = (LexPhase.run .text 0 before).1 ++
          ⟨.closing,String.ofList name,start,stop,terminated⟩ :: more := by
  obtain ⟨stop,terminated,more,later,lexed⟩ := lexFrom_afterClosingName start (start + 2 + size) rest ended
  refine ⟨stop,terminated,more,later,fun before name ready place named sized => ?_⟩
  obtain ⟨c,chars,rfl,letter⟩ := named.letter
  have size : start + 1 + 1 + c.utf8Size + byteLength chars = start + 2 + size := by
    grind
  have first : LexPhase.step (.bracket start) (start + 1) '/' = (.bracketSlash start,none) := rfl
  have second : LexPhase.step (.bracketSlash start) (start + 1 + 1) c = (.closingName start [c],none) := by
    rw [LexPhase.step,if_pos letter]
  rw [ready.lex_eq,place,lexFrom,first]
  dsimp only
  rw [List.cons_append,show start + 1 + ('/').utf8Size = start + 1 + 1 from rfl,lexFrom,second]
  dsimp only
  rw [lexFrom_closingName _ _ _ _ _ fun d member => named.written d (List.mem_cons_of_mem _ member),size,lexed]
  simp [LexPhase.nameOf]

theorem dropBytes_append_of_le (first second : List Char) (count : Nat) (inside : count ≤ byteLength first) :
    dropBytes (first ++ second) count =
      match splitAt? first count with
      | some (_,rest) => rest ++ second
      | none => [] := by
  rw [dropBytes,splitAt?_append_of_le first second count inside]
  cases splitAt? first count <;> rfl

theorem dropBytes_append_add (first second : List Char) (count : Nat) :
    dropBytes (first ++ second) (byteLength first + count) = dropBytes second count := by
  rw [dropBytes,splitAt?_append_add,dropBytes]
  cases splitAt? second count <;> rfl

theorem textBetween_withName (before : List Tag) (tag : Tag) (name : String) (more : List Tag) (offset : Nat)
    (text : List Char) : textBetween offset (before ++ tag.withName name :: more) text =
      textBetween offset (before ++ tag :: more) text := by
  induction before generalizing offset text with
  | nil => rfl
  | cons first before ih =>
    rw [List.cons_append,List.cons_append,textBetween,textBetween]
    cases splitAt? text (first.start - offset) with
    | none => rfl
    | some parts =>
      dsimp only
      rw [ih]

theorem textBetween_swap (before : List Tag) (tag : Tag) (more : List Tag) (offset : Nat)
    (front old new back : List Char) (size : byteLength new = byteLength old)
    (ordered : TagsInOrder (offset + byteLength (front ++ (old ++ back))) offset (before ++ tag :: more))
    (starts : tag.start ≤ offset + byteLength front) (stops : offset + byteLength front + byteLength old ≤ tag.stop) :
    textBetween offset (before ++ tag :: more) (front ++ (new ++ back)) =
      textBetween offset (before ++ tag :: more) (front ++ (old ++ back)) := by
  -- Over the tags before: what stands between them is in the front, and the changed part is inside the tag.
  induction before generalizing offset front with
  | nil =>
    obtain ⟨⟨first,_⟩,_⟩ := ordered
    have inside : tag.start - offset ≤ byteLength front := by omega
    rw [List.nil_append,textBetween,textBetween,splitAt?_append_of_le _ _ _ inside,splitAt?_append_of_le _ _ _ inside]
    cases split : splitAt? front (tag.start - offset) with
    | none => rfl
    | some parts =>
      obtain ⟨rfl,place⟩ := splitAt?_some _ _ _ _ split
      obtain ⟨count,reach⟩ : ∃ count, tag.stop - tag.start = byteLength (parts.2 ++ old) + count := by
        refine ⟨tag.stop - tag.start - byteLength (parts.2 ++ old),?_⟩
        grind
      have reach' : tag.stop - tag.start = byteLength (parts.2 ++ new) + count := by
        rw [reach,byteLength_append,byteLength_append,size]
      simp only [Option.map_some]
      rw [← List.append_assoc parts.2 old,reach,dropBytes_append_add,← reach,← List.append_assoc parts.2 new,
        reach',dropBytes_append_add]
  | cons first before ih =>
    obtain ⟨⟨started,nonempty,ends,_⟩,following⟩ := ordered
    have later : first.stop ≤ tag.start := following.le_start tag (List.mem_append_right _ List.mem_cons_self)
    have inside : first.start - offset ≤ byteLength front := by omega
    rw [List.cons_append,textBetween,textBetween,splitAt?_append_of_le _ _ _ inside,
      splitAt?_append_of_le _ _ _ inside]
    cases split : splitAt? front (first.start - offset) with
    | none => rfl
    | some parts =>
      obtain ⟨rfl,place⟩ := splitAt?_some _ _ _ _ split
      rw [byteLength_append] at starts stops
      have within : first.stop - first.start ≤ byteLength parts.2 := by omega
      simp only [Option.map_some]
      rw [dropBytes_append_of_le _ _ _ within,dropBytes_append_of_le _ _ _ within]
      cases rest : splitAt? parts.2 (first.stop - first.start) with
      | none => rfl
      | some tail =>
        obtain ⟨same,width⟩ := splitAt?_some _ _ _ _ rest
        have left : byteLength parts.2 = byteLength tail.1 + byteLength tail.2 := by rw [same,byteLength_append]
        have length : offset + byteLength (parts.1 ++ parts.2 ++ (old ++ back)) =
            first.stop + byteLength (tail.2 ++ (old ++ back)) := by
          grind
        dsimp only
        rw [ih first.stop tail.2 (length ▸ following) (by omega) (by omega)]

/-- The tags of an element in a text: what stands before the element, the rest of its opening tag, its content,
and what follows the name in its closing tag. -/
structure TagPair where
  before : List Char
  inner : List Char
  content : List Char
  after : List Char
  ready : Ready before
  ending : tagEnding? inner = some false
  closes : Ready content
  ended : ∀ c, after.head? = some c → isNameChar c = false

namespace TagPair

/-- The text with the names in the tags. -/
def render (pair : TagPair) (first second : List Char) : List Char :=
  pair.before ++ '<' :: (first ++ (pair.inner ++ (pair.content ++ '<' :: '/' :: (second ++ pair.after))))

def openStop (pair : TagPair) (size : Nat) : Nat := byteLength pair.before + 1 + size + byteLength pair.inner

def closeStart (pair : TagPair) (size : Nat) : Nat := pair.openStop size + byteLength pair.content

def opening (pair : TagPair) (name : List Char) : Tag :=
  ⟨.opening false,String.ofList name,byteLength pair.before,pair.openStop (byteLength name),true⟩

variable (pair : TagPair) {one other : List Char}

/-- The characters up to the end of the opening tag. -/
def front (name : List Char) : List Char := pair.before ++ '<' :: (name ++ pair.inner)

theorem byteLength_front (name : List Char) : byteLength (pair.front name) = pair.openStop (byteLength name) := by
  simp only [front,openStop,byteLength_append,byteLength_cons]
  grind

theorem render_eq (one other : List Char) : pair.render one other =
    (pair.front one ++ pair.content) ++ '<' :: '/' :: (other ++ pair.after) := by
  simp [render,front]

theorem run_front (named : TagName one) :
    LexPhase.run .text 0 (pair.front one) = ((LexPhase.run .text 0 pair.before).1 ++ [pair.opening one],.text) :=
  pair.ready.run_tag named pair.inner false pair.ending

/-- Other names of the same length only change the names of the two tags. -/
theorem lex_render (size width : Nat) : ∃ (middle : List Tag) (closing : Tag) (more : List Tag),
    closing.kind = .closing ∧ closing.start = pair.closeStart size ∧
    pair.closeStart size + 2 + width ≤ closing.stop ∧
    ∀ one other, TagName one → TagName other → byteLength one = size → byteLength other = width →
      lex (pair.render one other) = (LexPhase.run .text 0 pair.before).1 ++ pair.opening one ::
        (middle ++ closing.withName (String.ofList other) :: more) := by
  obtain ⟨stop,terminated,more,later,lexed⟩ := lex_closing (pair.closeStart size) width pair.after pair.ended
  refine ⟨(LexPhase.run .text (pair.openStop size) pair.content).1,
    ⟨.closing,"",pair.closeStart size,stop,terminated⟩,more,rfl,rfl,later,fun one other first second sized wide => ?_⟩
  have read := pair.run_front first
  have place := pair.byteLength_front one
  rw [sized] at place
  have ready : Ready (pair.front one ++ pair.content) :=
    (ready_append_iff (congrArg Prod.snd read) pair.content).mpr pair.closes
  rw [render_eq,lexed _ other ready (by rw [byteLength_append,place,closeStart]) second wide,
    LexPhase.run_append,read,Nat.zero_add,place]
  simp [Tag.withName]

theorem render_opening (one other : List Char) : pair.render one other =
    (pair.before ++ ['<']) ++ (one ++ (pair.inner ++ (pair.content ++ '<' :: '/' :: (other ++ pair.after)))) := by
  simp [render]

theorem render_closing (one other : List Char) : pair.render one other =
    (pair.front one ++ pair.content ++ ['<','/']) ++ (other ++ pair.after) := by
  simp [render,front]

theorem byteLength_closing (name : List Char) :
    byteLength (pair.front name ++ pair.content ++ ['<','/']) = pair.closeStart (byteLength name) + 2 := by
  rw [byteLength_append,byteLength_append,byteLength_front,closeStart]
  grind

theorem byteLength_render (one other : List Char) : byteLength (pair.render one other) =
    pair.closeStart (byteLength one) + 2 + byteLength other + byteLength pair.after := by
  rw [render_closing,byteLength_append,byteLength_closing,byteLength_append]
  omega

theorem slice_opening (one other : List Char) : slice? (pair.render one other) (byteLength pair.before)
    (pair.openStop (byteLength one)) = some ('<' :: (one ++ pair.inner)) := by
  have found := slice?_append pair.before ('<' :: (one ++ pair.inner))
    (pair.content ++ '<' :: '/' :: (other ++ pair.after))
  have size : byteLength pair.before + byteLength ('<' :: (one ++ pair.inner)) = pair.openStop (byteLength one) := by
    rw [← byteLength_append]
    exact pair.byteLength_front one
  rw [size] at found
  simpa [render] using found

theorem textBetween_render {one other first second : List Char} (named : TagName one) (closed : TagName other)
    (opens : TagName first) (closes : TagName second) (size : byteLength first = byteLength one)
    (width : byteLength second = byteLength other) :
    textBetween 0 (lex (pair.render first second)) (pair.render first second) =
      textBetween 0 (lex (pair.render one other)) (pair.render one other) := by
  obtain ⟨middle,closing,more,_,start,stop,lexed⟩ := pair.lex_render (byteLength one) (byteLength other)
  have opening : textBetween 0 (lex (pair.render first other)) (pair.render first other) =
      textBetween 0 (lex (pair.render one other)) (pair.render one other) := by
    have renamed : pair.opening first = (pair.opening one).withName (String.ofList first) := by
      rw [TagPair.opening,size]
      rfl
    have ordered := lex_inOrder (pair.render one other)
    rw [lexed one other named closed rfl rfl] at ordered ⊢
    rw [lexed first other opens closed size rfl,renamed,textBetween_withName]
    rw [render_opening] at ordered
    rw [render_opening,render_opening]
    have place : byteLength (pair.before ++ ['<']) = byteLength pair.before + 1 := byteLength_append _ _
    refine textBetween_swap _ (pair.opening one) _ 0 _ one first _ size (by rwa [Nat.zero_add]) ?_ ?_
    · change byteLength pair.before ≤ _
      omega
    · change _ ≤ pair.openStop (byteLength one)
      rw [openStop]
      omega
  have closing : textBetween 0 (lex (pair.render first second)) (pair.render first second) =
      textBetween 0 (lex (pair.render first other)) (pair.render first other) := by
    have ordered := lex_inOrder (pair.render first other)
    have parts (name : List Char) : (LexPhase.run .text 0 pair.before).1 ++ pair.opening first ::
        (middle ++ closing.withName (String.ofList name) :: more) =
        ((LexPhase.run .text 0 pair.before).1 ++ pair.opening first :: middle) ++
          (closing.withName (String.ofList name) :: more) := by
      simp
    rw [lexed first other opens closed size rfl,parts] at ordered ⊢
    rw [lexed first second opens closes size width,parts,textBetween_withName,
      ← textBetween_withName _ closing (String.ofList other)]
    rw [render_closing] at ordered
    rw [render_closing,render_closing]
    have place := pair.byteLength_closing first
    rw [size] at place
    refine textBetween_swap _ (closing.withName (String.ofList other)) _ 0 _ other second _ width
      (by rwa [Nat.zero_add]) ?_ ?_
    · change closing.start ≤ _
      omega
    · change _ ≤ closing.stop
      omega
  exact closing.trans opening

theorem slice_render {one other first second : List Char} (size : byteLength first = byteLength one)
    (width : byteLength second = byteLength other) (start stop : Nat)
    (apart : stop ≤ byteLength pair.before + 1 ∨
      byteLength pair.before + 1 + byteLength one ≤ start ∧ stop ≤ pair.closeStart (byteLength one) + 2 ∨
      pair.closeStart (byteLength one) + 2 + byteLength other ≤ start) :
    slice? (pair.render first second) start stop = slice? (pair.render one other) start stop := by
  by_cases ordered : start ≤ stop
  · rcases apart with before | ⟨behind,before⟩ | behind
    · have place : byteLength (pair.before ++ ['<']) = byteLength pair.before + 1 := byteLength_append _ _
      have inside := place ▸ before
      rw [render_opening,render_opening,slice?_append_of_le _ _ _ _ inside,slice?_append_of_le _ _ _ _ inside]
    · have parts (name last : List Char) : pair.render name last = (pair.before ++ '<' :: name) ++
          ((pair.inner ++ pair.content ++ ['<','/']) ++ (last ++ pair.after)) := by
        simp [render]
      have place (name : List Char) : byteLength (pair.before ++ '<' :: name) =
          byteLength pair.before + 1 + byteLength name := by
        grind
      have whole : byteLength pair.before + 1 + byteLength one +
          byteLength (pair.inner ++ pair.content ++ ['<','/']) = pair.closeStart (byteLength one) + 2 := by
        simp only [closeStart,openStop,byteLength_append,byteLength_cons,byteLength_nil]
        grind
      obtain ⟨left,rfl⟩ := Nat.exists_eq_add_of_le behind
      obtain ⟨right,rfl⟩ := Nat.exists_eq_add_of_le (behind.trans ordered)
      have inside : right ≤ byteLength (pair.inner ++ pair.content ++ ['<','/']) := by omega
      rw [parts,parts,← place one,slice?_append_add,place one,← size,← place first,slice?_append_add,
        slice?_append_of_le _ _ _ _ inside,slice?_append_of_le _ _ _ _ inside]
    · have parts (name last : List Char) : pair.render name last =
          (pair.front name ++ pair.content ++ ['<','/'] ++ last) ++ pair.after := by
        simp [render,front]
      have place (name last : List Char) : byteLength (pair.front name ++ pair.content ++ ['<','/'] ++ last) =
          pair.closeStart (byteLength name) + 2 + byteLength last := by
        rw [byteLength_append,byteLength_closing]
      obtain ⟨left,rfl⟩ := Nat.exists_eq_add_of_le behind
      obtain ⟨right,rfl⟩ := Nat.exists_eq_add_of_le (behind.trans ordered)
      rw [parts,parts,← place one other,slice?_append_add,place one other,← size,← width,← place first second,
        slice?_append_add]
  · rw [slice?,slice?,if_neg ordered,if_neg ordered]

end TagPair

end AccessibleMarkup.Markup
