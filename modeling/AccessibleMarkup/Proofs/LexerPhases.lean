import AccessibleMarkup.Proofs.TagEditFrame

/-! Where the lexer stands between two characters of a text. Inside a tag it has that tag pending, behind
the tag nothing that started before its end, and blanks bring it to a phase that further blanks keep. -/
namespace AccessibleMarkup.Markup

open Text

def IsBlankChar (c : Char) : Prop := c = ' ' ∨ c = '\n' ∨ c = '\r'

def TagInterior.Regular : TagInterior → Prop
  | .quoted mark => mark = '"' ∨ mark = '\''
  | _ => True

theorem TagInterior.Regular.next {interior : TagInterior} (regular : interior.Regular) (c : Char) :
    (interior.next c).Regular := by
  cases interior with
  | plain slash =>
    simp only [TagInterior.next]
    split_ifs <;> trivial
  | value =>
    simp only [TagInterior.next]
    split_ifs with space mark
    · trivial
    · simpa [TagInterior.Regular] using mark
    · trivial
  | quoted mark =>
    simp only [TagInterior.next]
    split_ifs
    · trivial
    · exact regular

theorem TagInterior.Regular.next_blank {interior : TagInterior} (regular : interior.Regular) {c : Char}
    (blank : IsBlankChar c) : interior.endsAt c = false ∧ interior.next c = interior.next ' ' := by
  cases interior with
  | plain slash => rcases blank with rfl | rfl | rfl <;> exact ⟨rfl,rfl⟩
  | value => rcases blank with rfl | rfl | rfl <;> exact ⟨rfl,rfl⟩
  | quoted mark =>
    rcases regular with rfl | rfl
    · rcases blank with rfl | rfl | rfl <;> exact ⟨rfl,rfl⟩
    · rcases blank with rfl | rfl | rfl <;> exact ⟨rfl,rfl⟩

def MarkupInterior.Regular : MarkupInterior → Prop
  | .sectionOpening rest => rest <:+ ['C','D','A','T','A','[']
  | _ => True

theorem MarkupInterior.Regular.next? {interior next : MarkupInterior} (regular : interior.Regular) (c : Char)
    (stepped : interior.next? c = some next) : next.Regular := by
  have section_ (expected : Char) (rest : List Char) (same : interior = .sectionOpening (expected :: rest)) :
      rest <:+ ['C','D','A','T','A','['] := by
    subst same
    exact (List.suffix_cons expected rest).trans regular
  unfold MarkupInterior.next? at stepped
  grind [MarkupInterior.Regular]

theorem MarkupInterior.Regular.next?_blank {interior : MarkupInterior} (regular : interior.Regular) :
    ∃ next, interior.next? ' ' = some next ∧ next.next? ' ' = some next ∧
      ∀ {c}, IsBlankChar c → interior.next? c = interior.next? ' ' := by
  cases interior with
  | bang => exact ⟨_,rfl,rfl,by rintro c (rfl | rfl | rfl) <;> rfl⟩
  | dash => exact ⟨_,rfl,rfl,by rintro c (rfl | rfl | rfl) <;> rfl⟩
  | sectionOpening rest =>
    cases rest with
    | nil => exact ⟨_,rfl,rfl,by rintro c (rfl | rfl | rfl) <;> rfl⟩
    | cons expected rest =>
      have letter : expected ∈ ['C','D','A','T','A','['] := regular.subset List.mem_cons_self
      have other {c : Char} (blank : IsBlankChar c) : ¬ c = expected := by
        rintro rfl
        rcases blank with rfl | rfl | rfl <;> exact absurd letter (by decide)
      refine ⟨.declaration,?_,rfl,fun {c} blank => ?_⟩
      · rw [MarkupInterior.next?,if_neg (other (Or.inl rfl))]
        rfl
      · rw [MarkupInterior.next?,MarkupInterior.next?,if_neg (other blank),if_neg (other (Or.inl rfl))]
        rcases blank with rfl | rfl | rfl <;> rfl
  | comment dashes => exact ⟨_,rfl,rfl,by rintro c (rfl | rfl | rfl) <;> rfl⟩
  | sectionBody brackets => exact ⟨_,rfl,rfl,by rintro c (rfl | rfl | rfl) <;> rfl⟩
  | declaration => exact ⟨_,rfl,rfl,by rintro c (rfl | rfl | rfl) <;> rfl⟩

namespace LexPhase

def afterBlank (phase : LexPhase) : LexPhase := (phase.step 0 ' ').1

def Regular : LexPhase → Prop
  | .openingInterior _ _ interior => interior.Regular
  | .markup _ interior => interior.Regular
  | _ => True

variable {offset : Nat} {c : Char} {phase next : LexPhase} {given : Option Tag} {tag : Tag}

theorem regular_afterOpening (name : String) (selfClosing : Bool) : (afterOpening name selfClosing).Regular := by
  unfold afterOpening
  split_ifs
  · trivial
  · split <;> trivial

theorem Turn.regular (turn : Turn offset c phase next given) (regular : phase.Regular) : next.Regular := by
  cases turn with
  | openingInterior inside =>
    cases inside with
    | name =>
      have outside : (TagInterior.plain false).Regular := trivial
      exact outside.next c
    | interior => exact TagInterior.Regular.next regular c
  | openingEnd => exact regular_afterOpening _ _
  | markup start goesOn => exact MarkupInterior.Regular.next? regular c goesOn
  | text | bracket | openingStart | openingName | slash | closingStart | closingName | closingInterior | closingEnd
  | bang | question | markupEnd | raw | rawBracket | rawSlash | rawName => trivial

theorem Regular.step_blank {phase : LexPhase} (regular : phase.Regular) (offset : Nat) {c : Char}
    (blank : IsBlankChar c) : phase.step offset c = (phase.afterBlank,none) := by
  have text : readText offset c = .text := by rcases blank with rfl | rfl | rfl <;> rfl
  have raw (element : RawElement) : readRaw element offset c = .raw element := by
    rcases blank with rfl | rfl | rfl <;> rfl
  have leave (start : Nat) (name : String) :
      leaveClosingName start offset name c = (.closingInterior start name,none) := by
    rcases blank with rfl | rfl | rfl <;> rfl
  cases phase with
  | text => rw [LexPhase.step,text]; rfl
  | bracket start => rcases blank with rfl | rfl | rfl <;> rfl
  | bracketSlash start => rcases blank with rfl | rfl | rfl <;> rfl
  | openingName start name => rcases blank with rfl | rfl | rfl <;> rfl
  | openingInterior start name interior =>
    obtain ⟨inside,same⟩ := TagInterior.Regular.next_blank regular blank
    obtain ⟨within,_⟩ := TagInterior.Regular.next_blank regular (Or.inl rfl)
    rw [afterBlank,LexPhase.step,LexPhase.step,inside,within,same]
    rfl
  | closingName start name => rcases blank with rfl | rfl | rfl <;> rfl
  | closingInterior start name => rcases blank with rfl | rfl | rfl <;> rfl
  | markup start interior =>
    obtain ⟨next,first,_,same⟩ := MarkupInterior.Regular.next?_blank regular
    rw [afterBlank,LexPhase.step,LexPhase.step,same blank,first]
  | raw element => rw [LexPhase.step,raw]; rfl
  | rawBracket element start => rcases blank with rfl | rfl | rfl <;> rfl
  | rawName element start name =>
    have other (c : Char) (blank : IsBlankChar c) : isNameChar c = false := by
      rcases blank with rfl | rfl | rfl <;> rfl
    rw [afterBlank,LexPhase.step,LexPhase.step,other c blank,other ' ' (Or.inl rfl),leave,raw]
    simp only [Bool.false_eq_true,if_false]
    split_ifs <;> rfl

theorem afterBlank_start? (phase : LexPhase) :
    phase.afterBlank.start? = none ∨ phase.afterBlank.start? = phase.start? := by
  rcases phase.step_cases 0 ' ' with ⟨next,stepped,continued⟩ | ⟨next,tag,_,ended⟩
  · rw [afterBlank,stepped]
    rcases continued with none | kept | ⟨bracket,_⟩
    · exact Or.inl none
    · exact Or.inr kept
    · exact absurd bracket (by decide)
  · exact absurd ended.1 (by decide)

theorem Regular.afterBlank_afterBlank {phase : LexPhase} (regular : phase.Regular) :
    phase.afterBlank.afterBlank = phase.afterBlank := by
  cases phase with
  | openingInterior start name interior =>
    cases interior with
    | plain slash => rfl
    | value => rfl
    | quoted mark => rcases regular with rfl | rfl <;> rfl
  | markup start interior =>
    obtain ⟨next,first,again,_⟩ := MarkupInterior.Regular.next?_blank regular
    have moved : (LexPhase.markup start interior).afterBlank = .markup start next := by
      rw [afterBlank,LexPhase.step,first]
    rw [moved,afterBlank,LexPhase.step,again]
  | rawName element start name =>
    have left : (LexPhase.rawName element start name).afterBlank =
        if element.endedBy (nameOf name) then .closingInterior start (nameOf name) else .raw element := by
      rw [afterBlank,LexPhase.step,if_neg (by decide)]
      split_ifs <;> rfl
    rw [left]
    split_ifs <;> rfl
  | _ => rfl

theorem Regular.run_blanks {phase : LexPhase} (regular : phase.Regular) (offset : Nat) (c : Char)
    (rest : List Char) (blank : ∀ d ∈ c :: rest, IsBlankChar d) :
    phase.run offset (c :: rest) = ([],phase.afterBlank) := by
  induction rest generalizing phase offset c with
  | nil =>
    rw [run_cons,regular.step_blank offset (blank c List.mem_cons_self)]
    rfl
  | cons d rest ih =>
    have first := blank c List.mem_cons_self
    have next : phase.afterBlank.Regular := (phase.step_turn 0 ' ').regular regular
    rw [run_cons,regular.step_blank offset first]
    dsimp only
    rw [ih next _ d fun e member => blank e (List.mem_cons_of_mem _ member),regular.afterBlank_afterBlank]
    rfl

theorem Regular.run {phase : LexPhase} (regular : phase.Regular) (offset : Nat) (text : List Char) :
    (phase.run offset text).2.Regular := by
  induction text generalizing phase offset with
  | nil => exact regular
  | cons c rest ih => exact ih ((phase.step_turn offset c).regular regular) _

/-- A tag that is pending after some characters was pending before them or started with one of them, and
all tags that they end stand before it. -/
theorem run_start? (phase : LexPhase) (offset : Nat) (text : List Char) (start : Nat)
    (pending : (phase.run offset text).2.start? = some start) :
    (phase.start? = some start ∨ offset ≤ start ∧ start < offset + byteLength text) ∧
      ∀ tag ∈ (phase.run offset text).1, tag.stop ≤ start := by
  induction text generalizing phase offset with
  | nil => exact ⟨Or.inl pending,by simp⟩
  | cons c rest ih =>
    have size := Char.utf8Size_pos c
    rw [byteLength_cons]
    rcases phase.step_cases offset c with ⟨next,stepped,continued⟩ | ⟨next,tag,stepped,ended⟩
    · rw [run_cons,stepped] at pending ⊢
      obtain ⟨place,before⟩ := ih next _ pending
      refine ⟨?_,by simpa using before⟩
      rcases place with here | later
      · rcases continued with none | kept | ⟨_,opened⟩
        · rw [none] at here
          contradiction
        · exact Or.inl (kept ▸ here)
        · have same := Option.some.inj (opened.symm.trans here)
          exact Or.inr ⟨by omega,by omega⟩
      · exact Or.inr ⟨by omega,by omega⟩
    · obtain ⟨rfl,none,_,stopped,_⟩ := ended
      rw [run_cons,stepped] at pending ⊢
      obtain ⟨place,before⟩ := ih next _ pending
      rcases place with here | later
      · rw [none] at here
        contradiction
      · refine ⟨Or.inr ⟨by omega,by omega⟩,fun other member => ?_⟩
        rcases List.mem_append.mp member with now | further
        · rw [Option.mem_toList] at now
          obtain rfl := Option.some.inj now
          omega
        · exact before other further

def behind (tag : Tag) : LexPhase :=
  match tag.kind with
  | .opening slash => afterOpening tag.name slash
  | _ => .text

theorem Turn.behind (turn : Turn offset c phase next (some tag)) : next = behind tag := by
  cases turn <;> rfl

theorem ReadsText.afterBlank (reads : ReadsText c phase) : phase.afterBlank = .text := by
  cases reads <;> rfl

theorem step_starts (phase : LexPhase) (offset : Nat) (other : phase.start? ≠ some offset)
    (starts : (phase.step offset '<').1.start? = some offset) :
    phase.afterBlank = .text ∨ ∃ element, (phase.step offset '<').1 = .rawBracket element offset := by
  rcases (phase.step_turn offset '<').starts other starts with ⟨reads,_⟩ | ⟨element,_,same⟩
  · exact Or.inl reads.afterBlank
  · exact Or.inr ⟨element,same⟩

theorem InOpening.afterBlank_start? {start : Nat} {name : String} {interior : TagInterior}
    (inside : InOpening c start phase name interior) : phase.afterBlank.start? = some start := by
  cases inside with
  | name => rfl
  | interior =>
    have inside : interior.endsAt ' ' = false := by cases interior <;> rfl
    rw [afterBlank,step,inside]
    rfl

theorem InClosing.afterBlank_start? {start : Nat} {name : String} (inside : InClosing c start phase name) :
    phase.afterBlank.start? = some start := by
  cases inside with
  | name | interior => rfl
  | rawName element chars other own =>
    rw [afterBlank,step,if_neg (by decide),if_pos own]
    rfl

theorem Turn.blank_goes_on (turn : Turn offset c phase next given) (first : c = '<' ∨ c = '\x7b') {start : Nat}
    (pending : phase.start? = some start) (earlier : start < offset) (goesOn : next.start? = some start) :
    phase.afterBlank.start? = some start := by
  cases turn with
  | openingInterior inside | openingEnd inside | closingInterior inside =>
    rw [inside.afterBlank_start?,← inside.start?,pending]
  | markup place =>
    rw [afterBlank,step]
    cases after : MarkupInterior.next? _ ' ' with
    | some next => exact pending
    | none => exact absurd (MarkupInterior.next?_none after) (by decide)
  | bracket | rawBracket => exact absurd (Option.some.inj goesOn) (by omega)
  | text | closingEnd | markupEnd | raw => contradiction
  | openingStart _ other | closingStart _ other | openingName _ _ other | closingName _ _ other | rawName _ _ _ other
  | slash _ other | bang _ other | question _ other | rawSlash _ _ other =>
    rcases first with rfl | rfl <;> contradiction

end LexPhase

theorem lexFrom_place (phase : LexPhase) (offset : Nat) (text : List Char) (tag : Tag)
    (member : tag ∈ lexFrom phase offset text) :
    (phase.start? = some tag.start ∨ offset ≤ tag.start) ∧ offset ≤ tag.stop ∧
      (text ≠ [] → offset < tag.stop) := by
  induction text generalizing phase offset with
  | nil =>
    rw [lexFrom,Option.mem_toList] at member
    obtain ⟨start,stop⟩ := phase.finish_some offset tag member
    exact ⟨Or.inl start,by omega,by simp⟩
  | cons c rest ih =>
    have size := Char.utf8Size_pos c
    rw [lexFrom] at member
    rcases phase.step_cases offset c with ⟨next,stepped,continued⟩ | ⟨next,found,stepped,ended⟩
    · rw [stepped] at member
      obtain ⟨start,stop,_⟩ := ih next _ member
      refine ⟨?_,by omega,fun _ => by omega⟩
      rcases start with here | later
      · rcases continued with none | kept | ⟨_,opened⟩
        · rw [none] at here
          contradiction
        · exact Or.inl (kept ▸ here)
        · exact Or.inr (Nat.le_of_eq (Option.some.inj (opened.symm.trans here)))
      · exact Or.inr (by omega)
    · obtain ⟨_,none,started,stopped,_⟩ := ended
      rw [stepped] at member
      rcases List.mem_cons.mp member with rfl | further
      · exact ⟨Or.inl started,by omega,fun _ => by omega⟩
      · obtain ⟨start,stop,_⟩ := ih next _ further
        rw [none] at start
        refine ⟨Or.inr ?_,by omega,fun _ => by omega⟩
        have := start.resolve_left (by simp)
        omega

theorem mem_lexFrom_next {phase : LexPhase} {offset : Nat} {c : Char} {rest : List Char} {tag : Tag}
    (found : tag ∈ lexFrom phase offset (c :: rest)) (open_ : c ≠ '>') :
    tag ∈ lexFrom (phase.step offset c).1 (offset + c.utf8Size) rest := by
  rw [lexFrom_cons,List.mem_append,Option.mem_toList] at found
  exact found.resolve_left fun ended => open_ (LexPhase.turn_of_given ended).ends.1

/-- In the closing tag of a raw element, from its bracket on. -/
inductive LexPhase.ClosesRaw (element : RawElement) (start : Nat) : LexPhase → Prop
  | bracket : ClosesRaw element start (.rawBracket element start)
  | name (name : List Char) : ClosesRaw element start (.rawName element start name)
  | interior (name : String) (ended : element.endedBy name = true) :
      ClosesRaw element start (.closingInterior start name)

namespace LexPhase

def InRaw (element : RawElement) (phase : LexPhase) : Prop :=
  phase = .raw element ∨ ∃ start, phase.ClosesRaw element start

theorem InRaw.step {element : RawElement} {phase : LexPhase} (raw : phase.InRaw element) (offset : Nat) (c : Char) :
    ((phase.step offset c).2 = none ∧ (phase.step offset c).1.InRaw element) ∨
      ∃ tag, (phase.step offset c).2 = some tag ∧ tag.kind = .closing ∧ element.endedBy tag.name = true := by
  have read : (readRaw element offset c).InRaw element := by
    unfold readRaw
    split_ifs
    · exact Or.inr ⟨offset,.bracket⟩
    · exact Or.inl rfl
  have leave (start : Nat) (name : String) (ended : element.endedBy name = true) :
      ((leaveClosingName start offset name c).2 = none ∧ (leaveClosingName start offset name c).1.InRaw element) ∨
        ∃ tag, (leaveClosingName start offset name c).2 = some tag ∧ tag.kind = .closing ∧
          element.endedBy tag.name = true := by
    unfold leaveClosingName endClosing
    split_ifs
    · exact Or.inr ⟨_,rfl,rfl,ended⟩
    · exact Or.inl ⟨rfl,Or.inr ⟨start,.interior name ended⟩⟩
  rcases raw with rfl | ⟨start,closes⟩
  · exact Or.inl ⟨rfl,read⟩
  · cases closes with
    | bracket =>
      simp only [LexPhase.step]
      split_ifs
      · exact Or.inl ⟨rfl,Or.inr ⟨start,.name []⟩⟩
      · exact Or.inl ⟨rfl,read⟩
    | name name =>
      simp only [LexPhase.step]
      split_ifs with more ended
      · exact Or.inl ⟨rfl,Or.inr ⟨start,.name (c :: name)⟩⟩
      · exact leave start _ ended
      · exact Or.inl ⟨rfl,read⟩
    | interior name ended =>
      have same : (LexPhase.closingInterior start name).step offset c = leaveClosingName start offset name c := by
        simp [LexPhase.step,leaveClosingName]
      rw [same]
      exact leave start name ended

/-- The first tag behind raw text is a closing tag that ends it. -/
theorem InRaw.lexFrom {element : RawElement} {phase : LexPhase} (raw : phase.InRaw element) (offset : Nat)
    (text : List Char) : lexFrom phase offset text = [] ∨
      ∃ tag more, lexFrom phase offset text = tag :: more ∧ tag.kind = .closing ∧
        element.endedBy tag.name = true := by
  induction text generalizing phase offset with
  | nil =>
    rw [Markup.lexFrom]
    rcases raw with rfl | ⟨start,closes⟩
    · exact Or.inl rfl
    · cases closes with
      | bracket => exact Or.inl rfl
      | interior name ended => exact Or.inr ⟨_,_,rfl,rfl,ended⟩
      | name name =>
        simp only [finish]
        split_ifs with ended
        · exact Or.inr ⟨_,_,rfl,rfl,ended⟩
        · exact Or.inl rfl
  | cons c rest ih =>
    rw [lexFrom_cons]
    rcases raw.step offset c with ⟨none,still⟩ | ⟨tag,found,kind,ended⟩
    · rw [none]
      exact ih still _
    · rw [found]
      exact Or.inr ⟨tag,_,rfl,kind,ended⟩

theorem InRaw.endedBy {element : RawElement} {phase : LexPhase} (raw : phase.InRaw element) {offset : Nat}
    {text : List Char} {tag : Tag} (before : tag.start < offset) (member : tag ∈ Markup.lexFrom phase offset text) :
    element.endedBy tag.name = true := by
  have pending := (lexFrom_place _ _ _ tag member).1.resolve_right (by omega)
  have ordered := lexFrom_inOrder phase offset 0 text (Nat.zero_le _) fun start same =>
    ⟨Nat.zero_le _,by rwa [← Option.some.inj (pending.symm.trans same)]⟩
  rcases raw.lexFrom offset text with none | ⟨first,more,read,_,ended⟩
  · rw [none] at member
    contradiction
  · have stop := (lexFrom_place phase offset text first (by rw [read]; exact List.mem_cons_self)).2.1
    rw [read] at member ordered
    rcases List.mem_cons.mp member with rfl | later
    · exact ended
    · have := ordered.2.le_start tag later
      omega

end LexPhase

def phaseAfter (read : List Char) : LexPhase := (LexPhase.run .text 0 read).2

theorem phaseAfter_append (first second : List Char) :
    phaseAfter (first ++ second) = ((phaseAfter first).run (byteLength first) second).2 := by
  rw [phaseAfter,LexPhase.run_append,Nat.zero_add]
  rfl

theorem phaseAfter_concat (read : List Char) (c : Char) :
    phaseAfter (read ++ [c]) = ((phaseAfter read).step (byteLength read) c).1 := phaseAfter_append read [c]

theorem phaseAfter_regular (read : List Char) : (phaseAfter read).Regular := by
  have start : LexPhase.text.Regular := trivial
  exact start.run 0 read

theorem phaseAfter_start? {read : List Char} {start : Nat} (pending : (phaseAfter read).start? = some start) :
    start < byteLength read ∧ ∀ tag ∈ (LexPhase.run .text 0 read).1, tag.stop ≤ start := by
  obtain ⟨place,before⟩ := LexPhase.run_start? .text 0 read start pending
  rcases place with none | here
  · contradiction
  · exact ⟨by omega,before⟩

theorem phaseAfter_start?_ne (read : List Char) : (phaseAfter read).start? ≠ some (byteLength read) := fun same =>
  absurd (phaseAfter_start? same).1 (Nat.lt_irrefl _)

variable {tag : Tag} {read after : List Char}

theorem mem_run_or_lexFrom (member : tag ∈ lex (read ++ after)) :
    tag ∈ (LexPhase.run .text 0 read).1 ∨ tag ∈ lexFrom (phaseAfter read) (byteLength read) after := by
  rw [lex,lexFrom_append,Nat.zero_add] at member
  exact List.mem_append.mp member

theorem mem_lexFrom_of_open (member : tag ∈ lex (read ++ after)) (open_ : byteLength read < tag.stop) :
    tag ∈ lexFrom (phaseAfter read) (byteLength read) after := by
  refine (mem_run_or_lexFrom member).resolve_left fun ended => ?_
  have := (run_between read tag ended).2
  omega

theorem pending_inside (member : tag ∈ lex (read ++ after)) (started : tag.start < byteLength read)
    (open_ : byteLength read < tag.stop) : (phaseAfter read).start? = some tag.start :=
  (lexFrom_place _ _ _ tag (mem_lexFrom_of_open member open_)).1.resolve_right (by omega)

theorem mem_run_of_ended (member : tag ∈ lex (read ++ after)) (ended : tag.stop ≤ byteLength read)
    (more : after ≠ []) : tag ∈ (LexPhase.run .text 0 read).1 := by
  refine (mem_run_or_lexFrom member).resolve_right fun found => ?_
  have := (lexFrom_place _ _ _ tag found).2.2 more
  omega

/-- Behind its last tag, if that ends with the text, the phase is known. -/
theorem phaseAfter_behind (member : tag ∈ (LexPhase.run .text 0 read).1) (ended : tag.stop = byteLength read) :
    phaseAfter read = .behind tag := by
  rcases List.eq_nil_or_concat read with rfl | ⟨front,c,rfl⟩
  · contradiction
  · have size := Char.utf8Size_pos c
    rw [List.concat_eq_append] at member ended ⊢
    rw [LexPhase.run_append,Nat.zero_add] at member
    rw [byteLength_append,byteLength_cons,byteLength_nil] at ended
    rcases List.mem_append.mp member with earlier | last
    · have := (run_between front tag earlier).2
      omega
    · rw [LexPhase.run_cons,LexPhase.run_nil,List.append_nil,Option.mem_toList] at last
      rw [phaseAfter_concat]
      exact (LexPhase.turn_of_given last).behind

theorem phaseAfter_tag (member : tag ∈ lex (read ++ after)) (ended : tag.stop = byteLength read)
    (more : after ≠ []) (plain : RawElement.ofName? tag.name = none) : phaseAfter read = .text := by
  rw [phaseAfter_behind (mem_run_of_ended member ended.le more) ended,LexPhase.behind]
  split
  · rw [LexPhase.afterOpening,plain]
    exact ite_self _
  · rfl

/-- A tag with another name than those of raw elements neither opens nor closes one. -/
theorem foreign_of_lower {name : String} (script : Text.asciiLower name ≠ "script")
    (style : Text.asciiLower name ≠ "style") :
    RawElement.ofName? name = none ∧ ∀ element : RawElement, element.endedBy name = false := by
  refine ⟨?_,fun element => ?_⟩
  · simp only [RawElement.ofName?]
    rw [if_neg script,if_neg style]
  · rw [RawElement.endedBy,Text.sameIgnoringCase,beq_eq_false_iff_ne]
    cases element with
    | script => exact script
    | style => exact style

theorem pending_of_starts {rest : List Char}
    (member : tag ∈ lexFrom (phaseAfter read) (byteLength read) ('<' :: rest)) (start : tag.start = byteLength read) :
    ((phaseAfter read).step (byteLength read) '<').1.start? = some (byteLength read) := by
  have pending := (lexFrom_place _ _ _ tag (mem_lexFrom_next member (by decide))).1.resolve_right (by grind)
  rwa [start] at pending

theorem afterBlank_or_raw {rest : List Char}
    (member : tag ∈ lexFrom (phaseAfter read) (byteLength read) ('<' :: rest)) (start : tag.start = byteLength read) :
    (phaseAfter read).afterBlank = .text ∨
      ∃ element, ((phaseAfter read).step (byteLength read) '<').1 = .rawBracket element (byteLength read) :=
  (phaseAfter read).step_starts (byteLength read) (phaseAfter_start?_ne read) (pending_of_starts member start)

theorem afterBlank_of_starts {rest : List Char} (member : tag ∈ lex (read ++ '<' :: rest))
    (start : tag.start = byteLength read) (foreign : ∀ element : RawElement, element.endedBy tag.name = false) :
    (phaseAfter read).afterBlank = .text := by
  have found := mem_lexFrom_of_open member (start ▸ ((lex_inOrder _).between tag member).1)
  refine (afterBlank_or_raw found start).resolve_right ?_
  rintro ⟨element,raw⟩
  have further := mem_lexFrom_next found (by decide)
  rw [raw] at further
  have inside : (LexPhase.rawBracket element (byteLength read)).InRaw element := Or.inr ⟨_,.bracket⟩
  have ended := inside.endedBy (by grind) further
  rw [foreign element] at ended
  contradiction

end AccessibleMarkup.Markup
