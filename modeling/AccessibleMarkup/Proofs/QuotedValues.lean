import AccessibleMarkup.Proofs.LexerPhases

/-! What stands between the quotes of a value. To the lexer and to the outline it is a gap: another text in
its place, of any size and with any characters but the quote, only moves what comes behind it. -/
namespace AccessibleMarkup.Markup

open Text

/-- A quote after these characters opens a value of an opening tag: the lexer is not in a quoted value
before it, and is in one behind it. -/
def OpensValue (before : List Char) (mark : Char) : Prop :=
  (∀ start name other, phaseAfter before ≠ .openingInterior start name (.quoted other)) ∧
    ∃ start name, phaseAfter (before ++ [mark]) = .openingInterior start name (.quoted mark)

theorem TagInterior.next_quoted {interior : TagInterior} {c mark : Char} (stepped : interior.next c = .quoted mark) :
    interior = .quoted mark ∨ interior = .value ∧ c = mark ∧ (mark = '"' ∨ mark = '\'') := by
  cases interior with
  | plain slash =>
    simp only [next] at stepped
    split_ifs at stepped
  | value =>
    simp only [next] at stepped
    split_ifs at stepped with space quote
    obtain rfl := TagInterior.quoted.inj stepped
    exact Or.inr ⟨rfl,rfl,by simpa using quote⟩
  | quoted other =>
    simp only [next] at stepped
    split_ifs at stepped
    exact Or.inl stepped

/-- Only a quote after an equals sign brings the lexer into a quoted value. -/
theorem LexPhase.Turn.quoted {phase next : LexPhase} {offset start : Nat} {c mark : Char} {given : Option Tag}
    {name : String} (turn : Turn offset c phase next given)
    (quoted : next = .openingInterior start name (.quoted mark)) :
    phase = .openingInterior start name (.quoted mark) ∨
      phase = .openingInterior start name .value ∧ c = mark ∧ (mark = '"' ∨ mark = '\'') := by
  cases turn with
  | openingInterior inside =>
    obtain ⟨rfl,rfl,interior⟩ := LexPhase.openingInterior.inj quoted
    cases inside with
    | name => rcases TagInterior.next_quoted interior with plain | ⟨plain,_⟩ <;> contradiction
    | interior =>
      rcases TagInterior.next_quoted interior with rfl | ⟨rfl,same,quote⟩
      · exact Or.inl rfl
      · exact Or.inr ⟨rfl,same,quote⟩
  | openingEnd =>
    have pending := congrArg start? quoted
    rw [afterOpening_start?] at pending
    contradiction
  | _ => contradiction

theorem opensValue_iff (before : List Char) (mark : Char) : OpensValue before mark ↔
    (mark = '"' ∨ mark = '\'') ∧ ∃ start name, phaseAfter before = .openingInterior start name .value := by
  constructor
  · rintro ⟨outside,start,name,inside⟩
    rw [phaseAfter_concat] at inside
    rcases ((phaseAfter before).step_turn _ _).quoted inside with quoted | ⟨value,_,quote⟩
    · exact absurd quoted (outside _ _ _)
    · exact ⟨quote,start,name,value⟩
  · rintro ⟨quote,start,name,value⟩
    refine ⟨by simp [value],start,name,?_⟩
    rw [phaseAfter_concat,value]
    rcases quote with rfl | rfl <;> rfl

/-- Where an offset comes to stand when the value of so many bytes behind the limit gets another size. -/
def resized (limit old new offset : Nat) : Nat := if offset ≤ limit then offset else offset - old + new

/-- Not in the value, nor at one of its quotes. -/
def Besides (limit size offset : Nat) : Prop := offset ≤ limit ∨ limit + size + 2 ≤ offset

theorem lex_value {before value after : List Char} {mark : Char} (quote : mark = '"' ∨ mark = '\'')
    (absent : mark ∉ value) {start : Nat} {name : String}
    (phase : phaseAfter before = .openingInterior start name .value) :
    lex (before ++ mark :: (value ++ mark :: after)) = (LexPhase.run .text 0 before).1 ++
      lexFrom (.openingInterior start name (.plain false)) (byteLength before + byteLength value + 2) after := by
  have one := AttributePhase.utf8Size_of_isMark quote
  have parts : mark :: (value ++ mark :: after) = (mark :: (value ++ [mark])) ++ after := by simp
  have size : byteLength before + byteLength (mark :: (value ++ [mark])) =
      byteLength before + byteLength value + 2 := by
    grind
  rw [lex,lexFrom_append,Nat.zero_add,parts]
  congr 1
  have inside : ∀ c ∈ value, c ≠ mark := fun c member same => absent (same ▸ member)
  have passed := lexFrom_advance start (byteLength before) name _ _ _ after
    (TagInterior.advance?_value mark value quote inside)
  rw [size] at passed
  rw [← passed]
  exact congrArg (fun phase => lexFrom phase _ _) phase

/-- Another value between the same quotes only moves the tags and elements behind it, and no tag starts or
ends at the value or its quotes. -/
theorem quotedValue_inert (before value other after : List Char) (mark : Char) (opens : OpensValue before mark)
    (absent : mark ∉ value) (lacking : mark ∉ other) :
    let move := resized (byteLength before) (byteLength value) (byteLength other)
    let text := before ++ mark :: (value ++ mark :: after)
    let changed := before ++ mark :: (other ++ mark :: after)
    lex changed = (lex text).map (·.shift move) ∧
      (∀ tag ∈ lex text, Besides (byteLength before) (byteLength value) tag.start ∧
        Besides (byteLength before) (byteLength value) tag.stop) ∧
      (elements changed).map (·.toNode) = (elements text).map (·.toNode.shift move) := by
  intro move text changed
  obtain ⟨quote,start,name,phase⟩ := (opensValue_iff before mark).mp opens
  have one := AttributePhase.utf8Size_of_isMark quote
  have read : lex text = _ := lex_value quote absent phase
  have again : lex changed = _ := lex_value quote lacking phase
  have pending : start < byteLength before := (phaseAfter_start? (by rw [phase]; rfl)).1
  have fixed (offset : Nat) (near : offset ≤ byteLength before) : move offset = offset := if_pos near
  have behind (count : Nat) : move (byteLength before + byteLength value + 2 + count) =
      byteLength before + byteLength other + 2 + count := by
    simp only [move,resized]
    rw [if_neg (by omega)]
    omega
  have here : move (byteLength before + byteLength value + 2) = byteLength before + byteLength other + 2 := behind 0
  -- The pending tag starts before the value, and only what is read behind the value moves.
  have tags : lex changed = (lex text).map (·.shift move) := by
    have front : (LexPhase.run .text 0 before).1.map (·.shift move) = (LexPhase.run .text 0 before).1 := by
      refine (List.map_congr_left fun tag member => ?_).trans (List.map_id _)
      have bounds := run_between before tag member
      simp [Tag.shift,fixed tag.start (by omega),fixed tag.stop (by omega)]
    have back := lexFrom_shift move (.openingInterior start name (.plain false))
      (byteLength before + byteLength value + 2) after fun count => by rw [behind,here]
    rw [LexPhase.shift,fixed start (by omega),here] at back
    rw [read,again,List.map_append,front,back]
  refine ⟨tags,fun tag member => ?_,?_⟩
  · rw [read] at member
    rcases List.mem_append.mp member with early | late
    · have bounds := run_between before tag early
      exact ⟨Or.inl (by omega),Or.inl bounds.2⟩
    · obtain ⟨place,stop,_⟩ := lexFrom_place _ _ after tag late
      refine ⟨?_,Or.inr (by omega)⟩
      rcases place with same | later
      · obtain rfl := Option.some.inj same
        exact Or.inl (by omega)
      · exact Or.inr (by omega)
  · have length : byteLength changed = move (byteLength text) := by
      have whole : byteLength text = byteLength before + byteLength value + 2 + byteLength after := by
        grind
      rw [whole,behind]
      grind
    have nodes : outlineNodes changed = (outlineNodes text).map (·.shift move) := by
      unfold outlineNodes
      rw [tags,length]
      exact (congrArg Outline.nodes (Outline.shift_readAll move (byteLength text) (lex text) {})).symm
    simp only [elements,List.map_map]
    exact (List.map_id' _).trans nodes

theorem quotedValue_inert_brackets :
    let before := "<ul><li title=".toList
    let text := before ++ '"' :: ("a < b".toList ++ '"' :: " b>x</li></ul>".toList)
    let changed := before ++ '"' :: ("</li><b/><!-- '".toList ++ '"' :: " b>x</li></ul>".toList)
    OpensValue before '"' ∧ lex changed = (lex text).map (·.shift (resized 14 5 15)) ∧
      (elements changed).map (·.toNode) = (elements text).map (·.toNode.shift (resized 14 5 15)) ∧
      (lex text).map (fun tag => (tag.name,tag.start,tag.stop)) =
        [("ul",0,4),("li",4,24),("li",25,30),("ul",30,35)] ∧
      (lex changed).map (fun tag => (tag.name,tag.start,tag.stop)) =
        [("ul",0,4),("li",4,34),("li",35,40),("ul",40,45)] := by
  intro before text changed
  have opens : OpensValue before '"' := (opensValue_iff before '"').mpr ⟨Or.inl rfl,4,"li",by decide +kernel⟩
  have inert := quotedValue_inert before "a < b".toList "</li><b/><!-- '".toList " b>x</li></ul>".toList '"' opens
    (by decide) (by decide)
  exact ⟨opens,inert.1,inert.2.2,by decide +kernel,by decide +kernel⟩

end AccessibleMarkup.Markup
