import AccessibleMarkup.Proofs.ByteSlices
import AccessibleMarkup.Proofs.OutlineForest
import Mathlib.Data.List.TakeWhile

/-! The anatomy of opening tags. An element of a text starts with a bracket and a name, and the rest
of its tag is what the lexer passes over until a bracket ends it or the text is over. How the tag is
read depends on nothing before the bracket, and on nothing after the tag. -/
namespace AccessibleMarkup.Markup

open Text

namespace TagInterior

def advance? : TagInterior → List Char → Option TagInterior
  | interior, [] => some interior
  | interior, c :: rest => if interior.endsAt c then none else (interior.next c).advance? rest

theorem advance?_append (interior : TagInterior) (first second : List Char) :
    interior.advance? (first ++ second) =
      (interior.advance? first).bind fun middle => middle.advance? second := by
  induction first generalizing interior with
  | nil => rfl
  | cons c rest ih =>
    rw [List.cons_append,advance?,advance?]
    split_ifs
    · rfl
    · exact ih _

theorem advance?_cases (interior : TagInterior) (text : List Char) :
    (∃ last, interior.advance? text = some last) ∨
      ∃ body rest last, text = body ++ '>' :: rest ∧ interior.advance? body = some last ∧
        last.endsAt '>' = true := by
  induction text generalizing interior with
  | nil => exact Or.inl ⟨interior,rfl⟩
  | cons c rest ih =>
    by_cases ended : interior.endsAt c = true
    · obtain rfl := endsAt_bracket ended
      exact Or.inr ⟨[],rest,interior,rfl,rfl,ended⟩
    · have step (chars : List Char) :
          interior.advance? (c :: chars) = (interior.next c).advance? chars := by
        rw [advance?,if_neg ended]
      rcases ih (interior.next c) with ⟨last,passed⟩ | ⟨body,after,last,rfl,passed,ends⟩
      · exact Or.inl ⟨last,by rw [step,passed]⟩
      · exact Or.inr ⟨c :: body,after,last,rfl,by rw [step,passed],ends⟩

theorem advance?_of_not_mem (interior : TagInterior) (chars : List Char) (absent : '>' ∉ chars) :
    ∃ last, interior.advance? chars = some last := by
  rcases interior.advance?_cases chars with passed | ⟨body,rest,last,rfl,_,_⟩
  · exact passed
  · simp at absent

end TagInterior

theorem lexFrom_advance (start offset : Nat) (name : String) (interior last : TagInterior)
    (body rest : List Char) (passed : interior.advance? body = some last) :
    lexFrom (.openingInterior start name interior) offset (body ++ rest) =
      lexFrom (.openingInterior start name last) (offset + byteLength body) rest := by
  induction body generalizing interior offset with
  | nil =>
    obtain rfl := Option.some.inj passed
    rfl
  | cons c body ih =>
    rw [TagInterior.advance?] at passed
    split_ifs at passed with ended
    rw [List.cons_append,lexFrom,LexPhase.step,if_neg ended]
    dsimp only
    rw [ih _ _ passed,byteLength_cons,Nat.add_assoc]

theorem lexFrom_end (start offset : Nat) (name : String) (last : TagInterior) (rest : List Char)
    (ended : last.endsAt '>' = true) :
    lexFrom (.openingInterior start name last) offset ('>' :: rest) =
      ⟨.opening last.slashed,name,start,offset + 1,true⟩ ::
        lexFrom (LexPhase.afterOpening name last.slashed) (offset + 1) rest := by
  rw [lexFrom,LexPhase.step,if_pos ended]
  rfl

theorem lexFrom_name (start offset : Nat) (read name rest : List Char)
    (written : ∀ c ∈ name, isNameChar c = true) :
    lexFrom (.openingName start read) offset (name ++ rest) =
      lexFrom (.openingName start (name.reverse ++ read)) (offset + byteLength name) rest := by
  induction name generalizing read offset with
  | nil => rfl
  | cons c name ih =>
    rw [List.cons_append,lexFrom,LexPhase.step,if_pos (written c List.mem_cons_self)]
    dsimp only
    rw [ih _ _ fun d member => written d (List.mem_cons_of_mem _ member),byteLength_cons,
      Nat.add_assoc,List.reverse_cons,List.append_assoc]
    rfl

theorem lexFrom_closingName (start offset : Nat) (read name rest : List Char)
    (written : ∀ c ∈ name, isNameChar c = true) :
    lexFrom (.closingName start read) offset (name ++ rest) =
      lexFrom (.closingName start (name.reverse ++ read)) (offset + byteLength name) rest := by
  induction name generalizing offset read with
  | nil => rfl
  | cons c name ih =>
    rw [List.cons_append,lexFrom,LexPhase.step,if_pos (written c List.mem_cons_self)]
    dsimp only
    rw [ih _ _ fun d member => written d (List.mem_cons_of_mem _ member),byteLength_cons]
    simp only [Nat.add_assoc,List.reverse_cons,List.append_assoc,List.singleton_append]

theorem lexFrom_afterName (start offset : Nat) (read rest : List Char)
    (ended : ∀ c, rest.head? = some c → isNameChar c = false) :
    lexFrom (.openingName start read) offset rest =
      lexFrom (.openingInterior start (LexPhase.nameOf read) (.plain false)) offset rest := by
  cases rest with
  | nil => rfl
  | cons c rest =>
    have other : ¬ isNameChar c = true := by simp [ended c rfl]
    simp only [lexFrom,LexPhase.step,if_neg other,TagInterior.endsAt,decide_eq_true_eq]
    by_cases bracket : c = '>'
    · simp only [if_pos bracket,TagInterior.slashed]
    · simp only [if_neg bracket]

theorem lexFrom_bracket_name (start : Nat) (name rest : List Char)
    (letter : ∃ c more, name = c :: more ∧ c.isAlpha = true) (written : ∀ c ∈ name, isNameChar c = true)
    (named : ∀ c, rest.head? = some c → isNameChar c = false) :
    lexFrom (.bracket start) (start + 1) (name ++ rest) =
      lexFrom (.openingInterior start (String.ofList name) (.plain false)) (start + 1 + byteLength name) rest := by
  obtain ⟨c,chars,rfl,alpha⟩ := letter
  have first : LexPhase.step (.bracket start) (start + 1) c = (.openingName start [c],none) := by
    rw [LexPhase.step,if_pos alpha]
  have spelled : LexPhase.nameOf (chars.reverse ++ [c]) = String.ofList (c :: chars) := by
    simp [LexPhase.nameOf]
  rw [List.cons_append,lexFrom,first]
  dsimp only
  rw [lexFrom_name _ _ _ _ _ fun d member => written d (List.mem_cons_of_mem _ member),
    lexFrom_afterName _ _ _ _ named,spelled,byteLength_cons,Nat.add_assoc (start + 1)]

/-- An opening tag that the lexer passes through up to the bracket that ends it. -/
theorem lexFrom_bracket_tag (start : Nat) (name body rest : List Char) (last : TagInterior)
    (letter : ∃ c more, name = c :: more ∧ c.isAlpha = true) (written : ∀ c ∈ name, isNameChar c = true)
    (named : ∀ c, (body ++ '>' :: rest).head? = some c → isNameChar c = false)
    (passed : TagInterior.advance? (.plain false) body = some last) (ended : last.endsAt '>' = true) :
    lexFrom (.bracket start) (start + 1) (name ++ (body ++ '>' :: rest)) =
      ⟨.opening last.slashed,String.ofList name,start,
          start + byteLength ('<' :: (name ++ (body ++ ['>']))),true⟩ ::
        lexFrom (LexPhase.afterOpening (String.ofList name) last.slashed)
          (start + byteLength ('<' :: (name ++ (body ++ ['>'])))) rest := by
  have size : start + byteLength ('<' :: (name ++ (body ++ ['>']))) =
      start + 1 + byteLength name + byteLength body + 1 := by
    grind
  rw [size,lexFrom_bracket_name start name _ letter written named,lexFrom_advance _ _ _ _ _ _ _ passed,
    lexFrom_end _ _ _ _ _ ended]

theorem lexFrom_closingName_bracket (start offset : Nat) (read name rest : List Char)
    (written : ∀ c ∈ name, isNameChar c = true) :
    lexFrom (.closingName start read) offset (name ++ '>' :: rest) =
      ⟨.closing,LexPhase.nameOf (name.reverse ++ read),start,offset + byteLength name + 1,true⟩ ::
        lexFrom .text (offset + byteLength name + 1) rest := by
  have other : ¬ isNameChar '>' = true := by decide
  rw [lexFrom_closingName _ _ _ _ _ written,lexFrom,LexPhase.step,if_neg other]
  rfl

theorem lexFrom_closing_tag (offset : Nat) (name rest : List Char)
    (letter : ∃ c more, name = c :: more ∧ c.isAlpha = true) (written : ∀ c ∈ name, isNameChar c = true) :
    lexFrom .text offset ('<' :: '/' :: (name ++ '>' :: rest)) =
      ⟨.closing,String.ofList name,offset,offset + byteLength ('<' :: '/' :: (name ++ ['>'])),true⟩ ::
        lexFrom .text (offset + byteLength ('<' :: '/' :: (name ++ ['>']))) rest := by
  obtain ⟨c,chars,rfl,alpha⟩ := letter
  have first : LexPhase.step .text offset '<' = (.bracket offset,none) := rfl
  have second : LexPhase.step (.bracket offset) (offset + 1) '/' = (.bracketSlash offset,none) := rfl
  have third : LexPhase.step (.bracketSlash offset) (offset + 1 + 1) c = (.closingName offset [c],none) := by
    rw [LexPhase.step,if_pos alpha]
  have spelled : LexPhase.nameOf (chars.reverse ++ [c]) = String.ofList (c :: chars) := by
    simp [LexPhase.nameOf]
  have size : offset + byteLength ('<' :: '/' :: (c :: chars ++ ['>'])) =
      offset + 1 + 1 + c.utf8Size + byteLength chars + 1 := by
    grind
  rw [size,lexFrom,first]
  dsimp only
  rw [show offset + ('<').utf8Size = offset + 1 from rfl,lexFrom,second]
  dsimp only
  rw [List.cons_append,show offset + 1 + ('/').utf8Size = offset + 1 + 1 from rfl,lexFrom,third]
  dsimp only
  rw [lexFrom_closingName_bracket _ _ _ _ _ fun d member => written d (List.mem_cons_of_mem _ member),spelled]

theorem lexFrom_text (offset : Nat) (chars rest : List Char) (plain : '<' ∉ chars) :
    lexFrom .text offset (chars ++ rest) = lexFrom .text (offset + byteLength chars) rest := by
  induction chars generalizing offset with
  | nil => rfl
  | cons c chars ih =>
    obtain ⟨other,later⟩ : ¬ '<' = c ∧ '<' ∉ chars := by simpa using plain
    rw [List.cons_append,lexFrom,LexPhase.step,LexPhase.readText,if_neg (Ne.symm other)]
    dsimp only
    rw [ih _ later,byteLength_cons,Nat.add_assoc]

/-- The name of an opening tag and the rest of it, before some text. -/
structure OpeningTag (name inner after : List Char) : Prop where
  letter : ∃ c rest, name = c :: rest ∧ c.isAlpha = true
  written : ∀ c ∈ name, isNameChar c = true
  named : ∀ c, (inner ++ after).head? = some c → isNameChar c = false
  ended : (∃ last, TagInterior.advance? (.plain false) inner = some last ∧ after = []) ∨
    ∃ body last, inner = body ++ ['>'] ∧ TagInterior.advance? (.plain false) body = some last ∧
      last.endsAt '>' = true

theorem toNat_of_isNameChar {c : Char} (named : isNameChar c = true) : 45 ≤ c.toNat ∧ c.toNat ≤ 122 := by
  unfold isNameChar at named
  delta Char.isAlphanum Char.isAlpha Char.isUpper Char.isLower Char.isDigit at named
  simp only [Bool.or_eq_true,Bool.and_eq_true,decide_eq_true_eq,beq_iff_eq,ge_iff_le,
    UInt32.le_iff_toNat_le] at named
  change ((((((65 ≤ c.toNat ∧ c.toNat ≤ 90) ∨ 97 ≤ c.toNat ∧ c.toNat ≤ 122) ∨
    48 ≤ c.toNat ∧ c.toNat ≤ 57) ∨ _) ∨ _) ∨ _) ∨ _ at named
  rcases named with (((letter | rfl) | rfl) | rfl) | rfl
  · omega
  all_goals decide

theorem utf8Size_of_isNameChar {c : Char} (named : isNameChar c = true) : c.utf8Size = 1 := by
  rw [Char.utf8Size_eq_one_iff,UInt32.le_iff_toNat_le]
  exact Nat.le_trans (toNat_of_isNameChar named).2 (by decide)

theorem isNameChar_of_isAlpha {c : Char} (letter : c.isAlpha = true) : isNameChar c = true := by
  simp [isNameChar,Char.isAlphanum,letter]

/-- A name ends where a character of another kind follows. -/
theorem takeWhile_name (name rest : List Char) (written : ∀ c ∈ name, isNameChar c = true)
    (ended : ∀ c, rest.head? = some c → isNameChar c = false) :
    (name ++ rest).takeWhile isNameChar = name := by
  rw [List.takeWhile_append_of_pos written]
  cases rest with
  | nil => rw [List.takeWhile_nil,List.append_nil]
  | cons c rest =>
    rw [List.takeWhile_cons,ended c rfl]
    exact List.append_nil name

namespace OpeningTag

/-- A name and anything that does not belong to it make an opening tag. -/
theorem exists_inner (name tail : List Char) (letter : ∃ c rest, name = c :: rest ∧ c.isAlpha = true)
    (written : ∀ c ∈ name, isNameChar c = true)
    (named : ∀ c, tail.head? = some c → isNameChar c = false) :
    ∃ inner after, tail = inner ++ after ∧ OpeningTag name inner after := by
  rcases TagInterior.advance?_cases (.plain false) tail with
    ⟨last,passed⟩ | ⟨body,rest,last,rfl,passed,ends⟩
  · exact ⟨tail,[],by simp,letter,written,by simpa using named,Or.inl ⟨last,passed,rfl⟩⟩
  · exact ⟨body ++ ['>'],rest,by simp,letter,written,by simpa using named,
      Or.inr ⟨body,last,rfl,passed,ends⟩⟩

theorem exists_name (c : Char) (rest : List Char) (letter : c.isAlpha = true) :
    ∃ name inner after, c :: rest = name ++ (inner ++ after) ∧ OpeningTag name inner after := by
  let name := (c :: rest).takeWhile isNameChar
  let tail := (c :: rest).dropWhile isNameChar
  have whole : c :: rest = name ++ tail := List.takeWhile_append_dropWhile.symm
  have first : ∃ d more, name = d :: more ∧ d.isAlpha = true := by
    refine ⟨c,rest.takeWhile isNameChar,?_,letter⟩
    simp [name,isNameChar_of_isAlpha letter]
  have written : ∀ d ∈ name, isNameChar d = true := fun d member =>
    List.mem_takeWhile_imp member
  have named : ∀ d, tail.head? = some d → isNameChar d = false := by
    intro d head
    have kept := List.head?_dropWhile_not isNameChar (c :: rest)
    rw [show ((c :: rest).dropWhile isNameChar).head? = some d from head] at kept
    simpa using kept
  obtain ⟨inner,after,parts,tag⟩ := exists_inner name tail first written named
  exact ⟨name,inner,after,by rw [← parts]; exact whole,tag⟩

/-- A tag reaches over everything that the lexer passes over. -/
theorem passes {name inner after : List Char} (tag : OpeningTag name inner after)
    (first second : List Char) (last : TagInterior) (same : first ++ second = inner ++ after)
    (passed : TagInterior.advance? (.plain false) first = some last) :
    ∃ more, inner = first ++ more ∧ second = more ++ after := by
  rcases List.append_eq_append_iff.mp same with ⟨more,rfl,rfl⟩ | ⟨more,rfl,rfl⟩
  · exact ⟨more,rfl,rfl⟩
  · rcases tag.ended with ⟨_,_,nothing⟩ | ⟨body,ending,rfl,reached,ends⟩
    · obtain ⟨rfl,rfl⟩ := List.append_eq_nil_iff.mp nothing
      exact ⟨[],by simp,rfl⟩
    · rw [List.append_assoc,TagInterior.advance?_append,reached,Option.bind_some,List.singleton_append,
        TagInterior.advance?,if_pos ends] at passed
      contradiction

end OpeningTag

theorem OpeningTag.lexFrom_eq {name inner after : List Char} (tag : OpeningTag name inner after)
    (start : Nat) :
    ∃ selfClosing terminated more,
      lexFrom (.bracket start) (start + 1) (name ++ (inner ++ after)) =
        ⟨.opening selfClosing,String.ofList name,start,
          start + 1 + byteLength name + byteLength inner,terminated⟩ :: more := by
  rw [lexFrom_bracket_name start name _ tag.letter tag.written tag.named]
  rcases tag.ended with ⟨last,passed,rfl⟩ | ⟨body,last,rfl,passed,ends⟩
  · rw [lexFrom_advance _ _ _ _ _ _ _ passed]
    exact ⟨false,false,[],rfl⟩
  · have stop : byteLength body + 1 = byteLength (body ++ ['>']) := by
      rw [byteLength_append]
      rfl
    rw [List.append_assoc,List.singleton_append,lexFrom_advance _ _ _ _ _ _ _ passed,
      lexFrom_end _ _ _ _ _ ends,Nat.add_assoc _ _ 1,stop]
    exact ⟨last.slashed,true,_,rfl⟩

def Ready (before : List Char) : Prop :=
  (LexPhase.run .text 0 before).2.step (byteLength before) '<' = (.bracket (byteLength before),none)

theorem Ready.lex_eq {before : List Char} (ready : Ready before) (rest : List Char) :
    lex (before ++ '<' :: rest) = (LexPhase.run .text 0 before).1 ++
      lexFrom (.bracket (byteLength before)) (byteLength before + 1) rest := by
  unfold Ready at ready
  rw [lex,lexFrom_append,Nat.zero_add,lexFrom,ready]
  rfl

namespace LexPhase

def opening? : LexPhase → Option Nat
  | .bracket start => some start
  | .openingName start _ => some start
  | .openingInterior start _ _ => some start
  | _ => none

theorem opening?_afterOpening (name : String) (selfClosing : Bool) :
    (afterOpening name selfClosing).opening? = none := by
  unfold afterOpening
  split
  · rfl
  · split <;> rfl

variable {offset : Nat} {c : Char} {phase next : LexPhase} {given : Option Tag} {tag : Tag}

theorem InOpening.opening? {start : Nat} {name : String} {interior : TagInterior}
    (inside : InOpening c start phase name interior) : phase.opening? = some start := by
  cases inside <;> rfl

theorem Turn.opening (turn : Turn offset c phase next given) :
    next.opening? = none ∨ next.opening? = phase.opening? ∨
      (c = '<' ∧ next = .bracket offset ∧ given = none) := by
  cases turn with
  | bracket _ bracket => exact Or.inr (Or.inr ⟨bracket,rfl,rfl⟩)
  | openingStart | openingName => exact Or.inr (Or.inl rfl)
  | openingInterior inside => exact Or.inr (Or.inl inside.opening?.symm)
  | openingEnd => exact Or.inl (opening?_afterOpening _ _)
  | text | slash | closingStart | closingName | closingInterior | closingEnd | bang | question | markup | markupEnd
  | raw | rawBracket | rawSlash | rawName => exact Or.inl rfl

theorem Turn.opening_given (turn : Turn offset c phase next (some tag)) (opening : tag.isOpening = true) :
    phase.opening? = some tag.start := by
  cases turn with
  | openingEnd inside => exact inside.opening?
  | closingEnd | markupEnd => contradiction

theorem Turn.bracket_other {start : Nat} (turn : Turn offset c (.bracket start) next given)
    (other : c.isAlpha = false) : given = none ∧ (next.opening? = none ∨ next.opening? = some offset) := by
  cases turn with
  | text | slash | bang | question => exact ⟨rfl,Or.inl rfl⟩
  | bracket => exact ⟨rfl,Or.inr rfl⟩
  | openingStart _ letter =>
    rw [other] at letter
    contradiction
  | openingInterior inside | openingEnd inside | closingInterior inside | closingEnd inside => cases inside
  | raw reads | rawBracket reads => cases reads

theorem finish_opening (phase : LexPhase) (length : Nat) (tag : Tag)
    (found : phase.finish length = some tag) (opening : tag.isOpening = true) :
    phase.opening? = some tag.start := by
  unfold finish at found
  grind [opening?,Tag.isOpening]

end LexPhase

theorem lexFrom_opening (phase : LexPhase) (offset : Nat) (text : List Char) (tag : Tag)
    (member : tag ∈ lexFrom phase offset text) (opening : tag.isOpening = true) :
    phase.opening? = some tag.start ∨
      ∃ before rest, text = before ++ '<' :: rest ∧ offset + byteLength before = tag.start ∧
        (phase.run offset before).2.step tag.start '<' = (.bracket tag.start,none) ∧
        tag ∈ lexFrom (.bracket tag.start) (tag.start + 1) rest := by
  induction text generalizing phase offset with
  | nil =>
    rw [lexFrom,Option.mem_toList] at member
    exact Or.inl (LexPhase.finish_opening phase offset tag member opening)
  | cons c rest ih =>
    have turn := phase.step_turn offset c
    rw [lexFrom_cons] at member
    rcases List.mem_append.mp member with now | further
    · rw [Option.mem_toList.mp now] at turn
      exact Or.inl (turn.opening_given opening)
    · rcases ih _ _ further with pending | ⟨before,after,rfl,place,ready,found⟩
      · rcases turn.opening with none | kept | ⟨rfl,bracket,nothing⟩
        · rw [none] at pending; contradiction
        · exact Or.inl (kept ▸ pending)
        · rw [bracket] at pending further
          obtain rfl := Option.some.inj pending
          exact Or.inr ⟨[],rest,rfl,rfl,Prod.ext bracket nothing,further⟩
      · refine Or.inr ⟨c :: before,after,rfl,?_,?_,found⟩
        · rw [byteLength_cons]; omega
        · rw [LexPhase.run_cons]
          exact ready

theorem TagsInOrder.le_start {length position : Nat} {tags : List Tag}
    (ordered : TagsInOrder length position tags) (tag : Tag) (member : tag ∈ tags) :
    position ≤ tag.start := by
  induction tags generalizing position with
  | nil => contradiction
  | cons first rest ih =>
    obtain ⟨⟨after,nonempty,_⟩,following⟩ := ordered
    rcases List.mem_cons.mp member with rfl | further
    · exact after
    · have := ih following further
      omega

theorem TagsInOrder.pairwise {length position : Nat} {tags : List Tag}
    (ordered : TagsInOrder length position tags) : tags.Pairwise fun first second => first.stop ≤ second.start := by
  induction tags generalizing position with
  | nil => exact .nil
  | cons tag rest ih => exact List.pairwise_cons.mpr ⟨ordered.2.le_start,ih ordered.2⟩

/-- Every opening tag of a text starts with a bracket that is ready for it and a letter, and is the
first tag found from there. -/
theorem lex_opening (text : List Char) (tag : Tag) (member : tag ∈ lex text)
    (opening : tag.isOpening = true) :
    ∃ before name inner after, text = before ++ '<' :: (name ++ (inner ++ after)) ∧ Ready before ∧
      byteLength before = tag.start ∧ OpeningTag name inner after ∧ tag.name = String.ofList name ∧
      tag.stop = tag.start + 1 + byteLength name + byteLength inner := by
  rcases lexFrom_opening .text 0 text tag member opening with
    pending | ⟨before,rest,rfl,place,ready,found⟩
  · contradiction
  rw [Nat.zero_add] at place
  rw [← place] at ready found
  cases rest with
  | nil => simp [lexFrom,LexPhase.finish] at found
  | cons c rest =>
    by_cases letter : c.isAlpha = true
    · obtain ⟨name,inner,after,same,parts⟩ := OpeningTag.exists_name c rest letter
      obtain ⟨selfClosing,terminated,more,lexed⟩ := parts.lexFrom_eq (byteLength before)
      refine ⟨before,name,inner,after,by rw [same],ready,place,parts,?_⟩
      have ordered := lexFrom_inOrder (.bracket (byteLength before)) (byteLength before + 1)
        (byteLength before) (c :: rest) (by omega) (by simp [LexPhase.start?])
      rw [same,lexed] at found ordered
      rcases List.mem_cons.mp found with rfl | further
      · exact ⟨rfl,rfl⟩
      · have later := ordered.2.le_start tag further
        have size := ordered.1.2.1
        dsimp only at later size
        omega
    · have turn := (LexPhase.bracket (byteLength before)).step_turn (byteLength before + 1) c
      obtain ⟨nothing,started⟩ := turn.bracket_other (by simpa using letter)
      rw [lexFrom_cons,nothing,Option.toList_none,List.nil_append] at found
      rcases lexFrom_opening _ _ _ tag found opening with pending | ⟨_,_,_,further,_⟩
      · rcases started with none | here
        · rw [none] at pending; contradiction
        · have := Option.some.inj (here.symm.trans pending)
          omega
      · omega

/-- Name and place of the opening tag of an element. -/
def Node.head (node : Node) : String × Nat × Nat := (node.name,node.start,node.openStop)

/-- The same of an opening tag. -/
def Tag.head (tag : Tag) : String × Nat × Nat := (Text.asciiLower tag.name,tag.start,tag.stop)

namespace Outline

theorem map_modify {α β : Type} (read : α → β) (nodes : List α) (k : Nat) (change : α → α)
    (kept : ∀ node, read (change node) = read node) : (nodes.modify k change).map read = nodes.map read := by
  apply List.ext_getElem?
  intro i
  rw [List.getElem?_map,List.getElem?_map,List.getElem?_modify]
  cases nodes[i]? with
  | none => rfl
  | some node =>
    by_cases same : k = i
    · simp [same,kept]
    · simp [same]

theorem map_endAll {α : Type} (read : Node → α) (nodes : List Node) (ended : List OpenNode) (offset : Nat)
    (extent : OpenNode → Extent) (kept : ∀ node offset extent, read (node.endAt offset extent) = read node) :
    (endAll nodes ended offset extent).map read = nodes.map read := by
  unfold endAll
  induction ended generalizing nodes with
  | nil => rfl
  | cons entry rest ih =>
    rw [List.foldl_cons,ih]
    exact map_modify read nodes _ _ fun node => kept node _ _

theorem SiblingStep.map_nodes {α : Type} (read : Node → α) {outline next : Outline} {name : String} {offset : Nat}
    (sibling : outline.SiblingStep name offset next)
    (kept : ∀ node offset extent, read (node.endAt offset extent) = read node) :
    next.nodes.map read = outline.nodes.map read := by
  cases sibling with
  | stays => rfl
  | ends => exact map_endAll read _ _ _ _ kept

theorem ClosingStep.map_nodes {α : Type} (read : Node → α) {outline next : Outline} {tag : Tag}
    (closing : outline.ClosingStep tag next)
    (kept : ∀ node offset extent, read (node.endAt offset extent) = read node)
    (closed : ∀ node tag, read (node.closeWith tag) = read node) :
    next.nodes.map read = outline.nodes.map read := by
  cases closing with
  | closes => rw [map_modify read _ _ _ fun node => closed node tag,map_endAll read _ _ _ _ kept]
  | pays => rfl
  | strays => exact map_endAll read _ _ _ _ kept

theorem Step.map_head {length : Nat} {outline next : Outline} {tag : Tag} (step : Step length outline tag next) :
    next.nodes.map Node.head = outline.nodes.map Node.head ++ ([tag].filter Tag.isOpening).map Tag.head := by
  cases step with
  | opening selfClosing kind before sibling =>
    have earlier := sibling.map_nodes Node.head fun _ _ _ => rfl
    have found : tag.isOpening = true := by simp [Tag.isOpening,kind]
    simp only [enter,List.map_append,earlier,List.filter_cons,found]
    rfl
  | closing kind next closing =>
    have none : [tag].filter Tag.isOpening = [] := by simp [Tag.isOpening,kind]
    rw [none,List.map_nil,List.append_nil]
    exact closing.map_nodes Node.head (fun _ _ _ => rfl) fun _ _ => rfl
  | markup kind => simp [Tag.isOpening,kind]

theorem map_head_readAll (length : Nat) (tags : List Tag) (outline : Outline) :
    (tags.foldl (read length) outline).nodes.map Node.head =
      outline.nodes.map Node.head ++ (tags.filter Tag.isOpening).map Tag.head := by
  induction tags generalizing outline with
  | nil => simp
  | cons tag rest ih =>
    rw [List.foldl_cons,ih,(outline.step tag length).map_head,List.append_assoc,← List.map_append,← List.filter_append]
    rfl

end Outline

theorem outlineNodes_heads (text : List Char) :
    (outlineNodes text).map Node.head = ((lex text).filter Tag.isOpening).map Tag.head := by
  have heads := Outline.map_head_readAll (byteLength text) (lex text) {}
  simpa [outlineNodes,Outline.ofTags] using heads

theorem exists_openingTag {text : List Char} {node : Node} (member : node ∈ outlineNodes text) :
    ∃ tag ∈ lex text, tag.isOpening = true ∧ tag.head = node.head := by
  have head : node.head ∈ ((lex text).filter Tag.isOpening).map Tag.head := by
    rw [← outlineNodes_heads]
    exact List.mem_map_of_mem member
  obtain ⟨tag,found,same⟩ := List.mem_map.mp head
  obtain ⟨lexed,opening⟩ := List.mem_filter.mp found
  exact ⟨tag,lexed,opening,same⟩

/-- The characters of an element's opening tag, with what stands before and after it. -/
structure Node.WrittenIn (text : List Char) (node : Node) (before name inner after : List Char) :
    Prop where
  parts : text = before ++ '<' :: (name ++ (inner ++ after))
  ready : Ready before
  tag : OpeningTag name inner after
  start : byteLength before = node.start
  named : node.name = Text.asciiLower (String.ofList name)
  openStop : node.openStop = node.start + 1 + byteLength name + byteLength inner

theorem Node.WrittenIn.slice_tag {text before name inner after : List Char} {node : Node}
    (written : node.WrittenIn text before name inner after) :
    slice? text node.start node.openStop = some ('<' :: (name ++ inner)) := by
  have found := slice?_append before ('<' :: (name ++ inner)) after
  have size : byteLength before + byteLength ('<' :: (name ++ inner)) = node.openStop := by
    rw [written.openStop,written.start]
    simp only [byteLength_cons,byteLength_append]
    have : ('<').utf8Size = 1 := rfl
    omega
  rw [size,written.start] at found
  rw [← found,written.parts]
  simp

theorem Node.exists_writtenIn (text : List Char) (node : Node) (member : node ∈ outlineNodes text) :
    ∃ before name inner after, node.WrittenIn text before name inner after := by
  obtain ⟨tag,lexed,opening,same⟩ := exists_openingTag member
  obtain ⟨before,name,inner,after,parts,ready,start,written,named,stop⟩ :=
    lex_opening text tag lexed opening
  simp only [Tag.head,Node.head,Prod.mk.injEq] at same
  obtain ⟨sameName,sameStart,sameStop⟩ := same
  exact ⟨before,name,inner,after,parts,ready,written,by omega,by rw [← sameName,named],by omega⟩

theorem exists_node_writtenIn (before name inner after : List Char) (ready : Ready before)
    (tag : OpeningTag name inner after) :
    ∃ node ∈ outlineNodes (before ++ '<' :: (name ++ (inner ++ after))),
      node.WrittenIn (before ++ '<' :: (name ++ (inner ++ after))) before name inner after := by
  obtain ⟨selfClosing,terminated,more,lexed⟩ := tag.lexFrom_eq (byteLength before)
  have heads := outlineNodes_heads (before ++ '<' :: (name ++ (inner ++ after)))
  rw [ready.lex_eq,lexed] at heads
  have present : (Text.asciiLower (String.ofList name),byteLength before,
      byteLength before + 1 + byteLength name + byteLength inner) ∈
      (outlineNodes (before ++ '<' :: (name ++ (inner ++ after)))).map Node.head := by
    rw [heads]
    refine List.mem_map.mpr ⟨_,List.mem_filter.mpr ⟨List.mem_append_right _ List.mem_cons_self,?_⟩,?_⟩
    · rfl
    · rfl
  obtain ⟨node,member,same⟩ := List.mem_map.mp present
  simp only [Node.head,Prod.mk.injEq] at same
  obtain ⟨sameName,sameStart,sameStop⟩ := same
  exact ⟨node,member,rfl,ready,tag,sameStart.symm,sameName,by omega⟩

end AccessibleMarkup.Markup
