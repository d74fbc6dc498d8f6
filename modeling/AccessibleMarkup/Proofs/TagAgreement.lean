import AccessibleMarkup.Proofs.TagEditFrame

/-! Where an opening tag ends, for the lexer and for the reader of its attributes. The lexer opens a value
at a quote after any equals sign outside quotes, the reader only where a name stands before the sign. The
two end the tag at the same bracket exactly if they agree, at each of its brackets, whether it stands in
quotes; and they do as long as every quote that opens a value for the lexer opens one for the reader. -/
namespace AccessibleMarkup.Markup

open Text

def TagInterior.mark? : TagInterior → Option Char
  | .quoted mark => some mark
  | _ => none

def TagInterior.isQuoted (interior : TagInterior) : Bool := interior.mark?.isSome

namespace AttributePhase

def mark? : AttributePhase → Option Char
  | .quoted _ mark _ _ => some mark
  | _ => none

def isQuoted (phase : AttributePhase) : Bool := phase.mark?.isSome

def awaitsValue : AttributePhase → Bool
  | .afterEquals _ => true
  | _ => false

theorem step_bracket (phase : AttributePhase) (offset : Nat) (open_ : phase.isQuoted = false) :
    phase.step offset '>' = (.done,phase.finish offset) := by
  cases phase with
  | quoted name mark start chars => contradiction
  | _ => rfl

theorem step_quoted_ne_done {phase : AttributePhase} (offset : Nat) (c : Char)
    (quoted : phase.isQuoted = true) : (phase.step offset c).1 ≠ .done := by
  cases phase with
  | quoted name mark start chars =>
    simp only [step]
    split_ifs <;> simp
  | _ => contradiction

theorem readGap_ne_done (offset : Nat) (c : Char) (other : c ≠ '>') : readGap offset c ≠ .done := by
  unfold readGap
  split_ifs
  · contradiction
  · simp
  · simp

theorem step_ne_done (phase : AttributePhase) (offset : Nat) (c : Char) (open_ : phase ≠ .done)
    (other : c ≠ '>') : (phase.step offset c).1 ≠ .done := by
  have gap := readGap_ne_done offset c other
  cases phase with
  | done => contradiction
  | gap => exact gap
  | outside | tagName =>
    simp only [step,readTagName]
    split_ifs <;> first | exact gap | simp
  | naming | afterName | afterEquals | unquoted | quoted =>
    simp only [step]
    split_ifs <;> first | exact gap | contradiction | simp

theorem run_done (offset : Nat) (text : List Char) : (run .done offset text).2 = .done := by
  induction text generalizing offset with
  | nil => rfl
  | cons c rest ih => exact ih _

theorem run_outside (start : Nat) (name rest : List Char) (written : ∀ c ∈ name, isNameChar c = true) :
    run .outside start ('<' :: (name ++ rest)) = run .tagName (start + 1 + byteLength name) rest := by
  have named (offset : Nat) :
      run .tagName offset (name ++ rest) = run .tagName (offset + byteLength name) rest := by
    induction name generalizing offset with
    | nil => rfl
    | cons c name ih =>
      have stepped : step .tagName offset c = (.tagName,none) := by
        simp [step,readTagName,continues_of_isNameChar (written c List.mem_cons_self)]
      rw [List.cons_append,run_cons,stepped,ih fun d member => written d (List.mem_cons_of_mem _ member),
        byteLength_cons,Nat.add_assoc]
      rfl
  exact named (start + 1)

end AttributePhase

/-- Lexer and reader agree at every bracket of some characters whether it stands in quotes. -/
def bracketsAgree : TagInterior → AttributePhase → Nat → List Char → Bool
  | _, _, _, [] => true
  | interior, phase, offset, c :: rest =>
    (c != '>' || interior.isQuoted == phase.isQuoted) &&
      bracketsAgree (interior.next c) (phase.step offset c).1 (offset + c.utf8Size) rest

/-- Every quote of some characters that opens a value for the lexer opens one for the reader. -/
def quotesAgree : TagInterior → AttributePhase → Nat → List Char → Bool
  | _, _, _, [] => true
  | interior, phase, offset, c :: rest =>
    (c != '"' && c != '\'' || interior != .value || phase.awaitsValue) &&
      quotesAgree (interior.next c) (phase.step offset c).1 (offset + c.utf8Size) rest

theorem TagInterior.endsAt_iff (interior : TagInterior) (c : Char) :
    interior.endsAt c = true ↔ interior.isQuoted = false ∧ c = '>' := by
  cases interior <;> simp [TagInterior.endsAt,TagInterior.isQuoted,TagInterior.mark?]

/-- The reader stops at the bracket where the lexer ends the tag, and not before, exactly if the two agree
at all brackets. -/
theorem bracketsAgree_iff (interior last : TagInterior) (phase : AttributePhase) (offset : Nat)
    (body : List Char) (passed : interior.advance? body = some last) (ended : last.endsAt '>' = true)
    (open_ : phase ≠ .done) :
    bracketsAgree interior phase offset (body ++ ['>']) = true ↔
      (phase.run offset body).2 ≠ .done ∧ (phase.run offset (body ++ ['>'])).2 = .done := by
  induction body generalizing interior phase offset with
  | nil =>
    obtain rfl := Option.some.inj passed
    have plain := ((interior.endsAt_iff '>').mp ended).1
    cases quoted : phase.isQuoted with
    | false => simp [bracketsAgree,plain,quoted,AttributePhase.run,open_,phase.step_bracket offset quoted]
    | true =>
      have kept := AttributePhase.step_quoted_ne_done offset '>' quoted
      simp [bracketsAgree,plain,quoted,AttributePhase.run,kept]
  | cons c rest ih =>
    rw [TagInterior.advance?] at passed
    split_ifs at passed with ends
    rw [List.cons_append,bracketsAgree,AttributePhase.run_cons,AttributePhase.run_cons]
    have further (open_ : (phase.step offset c).1 ≠ .done) :=
      ih (interior.next c) (phase.step offset c).1 (offset + c.utf8Size) passed open_
    by_cases bracket : c = '>'
    · -- The lexer passes over the bracket, so for it the bracket stands in quotes.
      subst bracket
      have inside : interior.isQuoted = true := by
        simpa [TagInterior.endsAt_iff] using ends
      cases quoted : phase.isQuoted with
      | false => simp [inside,phase.step_bracket offset quoted,AttributePhase.run_done]
      | true =>
        simpa [inside] using further (AttributePhase.step_quoted_ne_done offset '>' quoted)
    · simpa [bracket] using further (phase.step_ne_done offset c open_ bracket)

/-- Lexer and reader are in the same quotes, and a reader that awaits a value does so with the lexer. -/
structure InStep (interior : TagInterior) (phase : AttributePhase) : Prop where
  marks : interior.mark? = phase.mark?
  awaits : phase.awaitsValue = true → interior = .value

theorem InStep.isQuoted {interior : TagInterior} {phase : AttributePhase} (together : InStep interior phase) :
    interior.isQuoted = phase.isQuoted := by
  rw [TagInterior.isQuoted,together.marks]
  rfl

/-- Outside quotes and values a character opens no quotes, and only an equals sign makes the reader await
a value. -/
theorem AttributePhase.step_idle (phase : AttributePhase) (offset : Nat) (c : Char) (plain : phase.mark? = none)
    (idle : phase.awaitsValue = false) :
    (phase.step offset c).1.mark? = none ∧ ((phase.step offset c).1.awaitsValue = true → c = '=') := by
  have gap : (readGap offset c).mark? = none ∧ ((readGap offset c).awaitsValue = true → c = '=') := by
    unfold readGap
    split_ifs <;> simp [mark?,awaitsValue]
  cases phase with
  | quoted name mark start chars => contradiction
  | afterEquals name => contradiction
  | gap => exact gap
  | done => simp [step,mark?,awaitsValue]
  | outside | tagName =>
    simp only [step,readTagName]
    split_ifs <;> first | exact gap | simp [mark?,awaitsValue]
  | naming | afterName | unquoted =>
    simp only [step]
    split_ifs <;> first | exact gap | simp_all [mark?,awaitsValue]

theorem InStep.step {interior : TagInterior} {phase : AttributePhase} (together : InStep interior phase)
    (offset : Nat) (c : Char)
    (agreed : (c = '"' ∨ c = '\'') → interior = .value → phase.awaitsValue = true) :
    InStep (interior.next c) (phase.step offset c).1 := by
  obtain ⟨marks,awaits⟩ := together
  cases plain : phase.mark? with
  | some mark =>
    cases phase <;> cases interior <;> simp only [TagInterior.mark?,AttributePhase.mark?,reduceCtorEq,
      Option.some.injEq] at marks plain
    subst marks
    simp only [TagInterior.next,AttributePhase.step]
    split_ifs
    · exact ⟨rfl,by simp [AttributePhase.awaitsValue]⟩
    · exact ⟨rfl,by simp [AttributePhase.awaitsValue]⟩
  | none =>
    rw [plain] at marks
    cases idle : phase.awaitsValue with
    | true =>
      obtain rfl := awaits idle
      cases phase <;> simp only [AttributePhase.awaitsValue,reduceCtorEq] at idle
      simp only [TagInterior.next,AttributePhase.step]
      by_cases space : isMarkupSpace c = true
      · simp only [space,Bool.or_true,if_true]
        exact ⟨rfl,fun _ => rfl⟩
      by_cases mark : (c = '"' || c = '\'') = true
      · have sign : c ≠ '=' := by
          rintro rfl
          contradiction
        simp only [space,sign,mark,decide_false,Bool.or_self,if_true]
        exact ⟨rfl,by simp [AttributePhase.awaitsValue]⟩
      · simp only [space,mark,Bool.false_eq_true,if_false]
        split_ifs <;> exact ⟨rfl,by simp [AttributePhase.awaitsValue]⟩
    | false =>
      obtain ⟨still,sign⟩ := phase.step_idle offset c plain idle
      refine ⟨?_,fun value => ?_⟩
      · rw [still]
        cases interior with
        | quoted mark => contradiction
        | plain slash =>
          simp only [TagInterior.next]
          split_ifs <;> rfl
        | value =>
          simp only [TagInterior.next]
          split_ifs with blank mark
          · rfl
          · have opened := agreed (by simpa using mark) rfl
            rw [idle] at opened
            contradiction
          · rfl
      · rw [sign value]
        cases interior <;> first | rfl | contradiction

theorem InStep.bracketsAgree {interior : TagInterior} {phase : AttributePhase}
    (together : InStep interior phase) (offset : Nat) (chars : List Char)
    (agreed : quotesAgree interior phase offset chars = true) :
    bracketsAgree interior phase offset chars = true := by
  induction chars generalizing interior phase offset with
  | nil => rfl
  | cons c rest ih =>
    rw [quotesAgree,Bool.and_eq_true] at agreed
    rw [Markup.bracketsAgree,together.isQuoted,beq_self_eq_true,Bool.or_true,Bool.true_and]
    refine ih (together.step offset c fun mark value => ?_) _ agreed.2
    have first := agreed.1
    rcases mark with rfl | rfl <;> simpa [value] using first

theorem lex_terminated (text : List Char) (tag : Tag) (lexed : tag ∈ lex text)
    (opening : tag.isOpening = true) (terminated : tag.terminated = true) :
    ∃ before name body after last, text = before ++ ('<' :: (name ++ (body ++ ['>'])) ++ after) ∧
      byteLength before = tag.start ∧ tag.name = String.ofList name ∧ (∀ c ∈ name, isNameChar c = true) ∧
      tag.stop = tag.start + 1 + byteLength name + byteLength body + 1 ∧
      TagInterior.advance? (.plain false) body = some last ∧ last.endsAt '>' = true := by
  obtain ⟨before,name,inner,after,rfl,ready,start,tagged,named,stop⟩ := lex_opening text tag lexed opening
  rcases tagged.ended with ⟨last,passed,rfl⟩ | ⟨body,last,rfl,passed,ended⟩
  · -- A tag that the end of the text cuts off is not terminated.
    exfalso
    have whole : lex (before ++ '<' :: (name ++ (inner ++ []))) = (LexPhase.run .text 0 before).1 ++
        [⟨.opening false,String.ofList name,byteLength before,
          byteLength before + 1 + byteLength name + byteLength inner,false⟩] := by
      rw [ready.lex_eq,lexFrom_bracket_name _ name _ tagged.letter tagged.written tagged.named,
        lexFrom_advance _ _ _ _ _ _ _ passed]
      rfl
    have found := (lex_inOrder _).eq_of_start lexed (by rw [whole]; exact List.mem_append_right _ List.mem_cons_self)
      start.symm
    rw [found] at terminated
    contradiction
  · have size : byteLength (body ++ ['>']) = byteLength body + 1 := by
      rw [byteLength_append]
      rfl
    exact ⟨before,name,body,after,last,by simp,start,named,tagged.written,by omega,passed,ended⟩

theorem readAttributesFrom_bracket (phase : AttributePhase) (offset : Nat) (body : List Char)
    (open_ : (phase.run offset body).2.isQuoted = false) :
    readAttributesFrom phase offset (body ++ ['>']) = readAttributesFrom phase offset body := by
  have whole := readAttributesFrom_append phase offset body []
  rw [List.append_nil] at whole
  rw [readAttributesFrom_append,whole,readAttributesFrom_cons,AttributePhase.step_bracket _ _ open_,
    AttributePhase.read_done,List.append_nil]
  rfl

/-- The reader of a tag that is written with these characters stops at the bracket that ends the tag, and
all attributes stand between the name and that bracket. -/
structure Tag.ReadUpTo (tag : Tag) (written : List Char) : Prop where
  passes : (AttributePhase.run .outside tag.start written.dropLast).2 ≠ .done
  stops : (AttributePhase.run .outside tag.start written).2 = .done
  inside : ∀ attr ∈ readAttributes written tag.start,
    tag.start + 1 + byteLength tag.name.toList ≤ attr.range.start ∧ attr.range.start ≤ attr.range.stop ∧
      attr.range.stop < tag.stop

/-- Whether lexer and reader agree at every bracket of a tag that is written with these characters. -/
def Tag.bracketsAgree (tag : Tag) (written : List Char) : Bool :=
  Markup.bracketsAgree (.plain false) .tagName (tag.start + 1 + byteLength tag.name.toList)
    (written.drop (tag.name.length + 1))

/-- Whether they agree at every quote of it. -/
def Tag.quotesAgree (tag : Tag) (written : List Char) : Bool :=
  Markup.quotesAgree (.plain false) .tagName (tag.start + 1 + byteLength tag.name.toList)
    (written.drop (tag.name.length + 1))

/-- The reader of attributes ends a tag at the bracket at which the lexer ends it exactly if the two agree
at every bracket whether it stands in quotes. They do if every quote that opens a value for the lexer opens
one for the reader. -/
theorem readUpTo_iff_bracketsAgree (text : List Char) (tag : Tag) (lexed : tag ∈ lex text)
    (opening : tag.isOpening = true) (terminated : tag.terminated = true) :
    ∃ written, slice? text tag.start tag.stop = some written ∧ written.getLast? = some '>' ∧
      (tag.ReadUpTo written ↔ tag.bracketsAgree written = true) ∧
      (tag.quotesAgree written = true → tag.ReadUpTo written) := by
  obtain ⟨before,name,body,after,last,rfl,start,named,letters,stop,passed,ended⟩ :=
    lex_terminated text tag lexed opening terminated
  have spelled : tag.name.toList = name := by rw [named,String.toList_ofList]
  have rest : ('<' :: (name ++ (body ++ ['>']))).drop (tag.name.length + 1) = body ++ ['>'] := by
    rw [List.drop_succ_cons,← String.length_toList,spelled,List.drop_left]
  have front : ('<' :: (name ++ (body ++ ['>']))).dropLast = '<' :: (name ++ body) := by
    rw [← List.append_assoc,← List.cons_append,List.dropLast_concat]
  have sliced : slice? (before ++ ('<' :: (name ++ (body ++ ['>'])) ++ after)) tag.start tag.stop =
      some ('<' :: (name ++ (body ++ ['>']))) := by
    have found := slice?_append before ('<' :: (name ++ (body ++ ['>']))) after
    have size : byteLength before + byteLength ('<' :: (name ++ (body ++ ['>']))) = tag.stop := by
      grind
    rwa [size,start] at found
  have agreement := bracketsAgree_iff (.plain false) last .tagName (tag.start + 1 + byteLength name) body
    passed ended (by simp)
  have exactly_ : tag.ReadUpTo ('<' :: (name ++ (body ++ ['>']))) ↔
      tag.bracketsAgree ('<' :: (name ++ (body ++ ['>']))) = true := by
    rw [Tag.bracketsAgree,rest,spelled,agreement]
    constructor
    · rintro ⟨passes,stops,_⟩
      rw [front,AttributePhase.run_outside _ _ _ letters] at passes
      rw [AttributePhase.run_outside _ _ _ letters] at stops
      exact ⟨passes,stops⟩
    · rintro ⟨passes,stops⟩
      refine ⟨by rwa [front,AttributePhase.run_outside _ _ _ letters],
        by rwa [AttributePhase.run_outside _ _ _ letters],fun attr member => ?_⟩
      have open_ : (AttributePhase.run .tagName (tag.start + 1 + byteLength name) body).2.isQuoted = false := by
        rw [Bool.eq_false_iff]
        intro quoted
        rw [AttributePhase.run_append] at stops
        exact AttributePhase.step_quoted_ne_done _ '>' quoted stops
      have read : readAttributes ('<' :: (name ++ (body ++ ['>']))) tag.start =
          readAttributesFrom .tagName (tag.start + 1 + byteLength name) body := by
        rw [← readAttributesFrom_bracket _ _ _ open_]
        exact readAttributesFrom_name name _ (tag.start + 1) letters
      rw [read] at member
      obtain ⟨⟨found,left,right,parts,first,finish⟩,_⟩ :=
        readAttributesFrom_standsIn (tag.start + 1 + byteLength name) .tagName [] body trivial trivial attr member
      have sizes := congrArg byteLength parts
      simp only [List.nil_append,byteLength_append] at sizes
      rw [spelled]
      omega
  refine ⟨_,sliced,?_,exactly_,fun agreed => exactly_.mpr ?_⟩
  · rw [← List.append_assoc,← List.cons_append,List.getLast?_concat]
  · have together : InStep (.plain false) .tagName := ⟨rfl,by simp [AttributePhase.awaitsValue]⟩
    exact together.bracketsAgree _ _ agreed

theorem readUpTo_quoted_bracket :
    ∃ tag ∈ lex "<p>é<a b = \"x>y\" c>".toList, tag.isOpening = true ∧ tag.terminated = true ∧
      tag.range = ⟨5,20⟩ ∧ tag.ReadUpTo "<a b = \"x>y\" c>".toList := by
  have found : ∃ tag ∈ lex "<p>é<a b = \"x>y\" c>".toList, tag.isOpening = true ∧ tag.terminated = true ∧
      tag.range = ⟨5,20⟩ ∧ tag.quotesAgree "<a b = \"x>y\" c>".toList = true := by decide
  obtain ⟨tag,lexed,opening,terminated,range,agreed⟩ := found
  obtain ⟨written,sliced,_,_,reads⟩ := readUpTo_iff_bracketsAgree _ tag lexed opening terminated
  have same : written = "<a b = \"x>y\" c>".toList := by
    obtain ⟨start,stop⟩ := ByteRange.mk.inj range
    rw [start,stop] at sliced
    exact Option.some.inj (sliced.symm.trans (by decide))
  subst same
  exact ⟨tag,lexed,opening,terminated,range,reads agreed⟩

-- A quote in a value without quotes opens a value for the lexer alone.
example : (lex "<a b=c=\"x>y\">".toList).map (fun tag => (tag.stop,tag.bracketsAgree "<a b=c=\"x>y\">".toList)) =
    [(13,false)] := by decide

end AccessibleMarkup.Markup
