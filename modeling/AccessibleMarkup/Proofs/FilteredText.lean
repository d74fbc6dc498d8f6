import AccessibleMarkup.Proofs.Blanking

/-! The filtered text, character by character. Each character of the text as written is kept or gives way
to as many spaces as it has bytes, so nothing moves and line breaks stay. -/
namespace AccessibleMarkup.Markup

open Text

variable {covered : Nat → Bool}

theorem slice_blankWhere (before after : List Char) (c : Char) :
    slice? (blankWhere covered 0 (before ++ c :: after)) (byteLength before)
        (byteLength before + c.utf8Size) =
      some (if covered (byteLength before) then blankChar c else [c]) := by
  have size : byteLength (if covered (byteLength before) then blankChar c else [c]) = c.utf8Size := by
    split_ifs
    · exact byteLength_blankChar c
    · simp
  have sliced := slice?_append (blankWhere covered 0 before)
    (if covered (byteLength before) then blankChar c else [c])
    (blankWhere covered (byteLength before + c.utf8Size) after)
  rw [byteLength_blankWhere,size] at sliced
  rw [blankWhere_append,blankWhere,Nat.zero_add]
  exact sliced

theorem slice_of_shown (text : List Char) (offset : Nat) (c : Char) (shown : c ≠ ' ')
    (found : slice? (blankWhere covered 0 text) offset (offset + c.utf8Size) = some [c]) :
    slice? text offset (offset + c.utf8Size) = some [c] := by
  obtain ⟨front,back,parts,place,_⟩ := slice?_some _ _ _ _ found
  obtain ⟨before,after,rfl,rfl,_⟩ := blankWhere_shown 0 text front back c parts shown
  have sliced := slice?_append before [c] after
  rw [byteLength_blankWhere] at place
  rwa [place,byteLength_cons,byteLength_nil,Nat.add_zero] at sliced

theorem slice_lineBreak (text : List Char) (offset : Nat) (c : Char) (lineBreak : c = '\n' ∨ c = '\r') :
    slice? (blankWhere covered 0 text) offset (offset + 1) = some [c] ↔
      slice? text offset (offset + 1) = some [c] := by
  have one : c.utf8Size = 1 := by rcases lineBreak with rfl | rfl <;> rfl
  have kept : blankChar c = [c] := by rcases lineBreak with rfl | rfl <;> rfl
  have shown : c ≠ ' ' := by rcases lineBreak with rfl | rfl <;> decide
  constructor
  · intro found
    rw [← one] at found ⊢
    exact slice_of_shown text offset c shown found
  · intro found
    obtain ⟨before,after,rfl,rfl,_⟩ := slice?_some _ _ _ _ found
    have sliced := @slice_blankWhere covered before after c
    rwa [kept,ite_self,one] at sliced

theorem covers_iff (ranges : List ByteRange) (offset : Nat) :
    covers ranges offset = true ↔ ∃ range ∈ ranges, range.start ≤ offset ∧ offset < range.stop := by
  simp [covers,ByteRange.contains]

/-- The filter blanks the union of the statements and the control tags, whichever of them overlap, and
moves nothing. -/
theorem controlFlow_blanks_union (nameSpaces : List String) (text : List Char) :
    let filtered := (Filter.controlFlow nameSpaces).apply text
    let Replaced (offset : Nat) (c : Char) : Prop := c ≠ '\n' ∧ c ≠ '\r' ∧
      ∃ range ∈ statementRanges text ++ controlTagRanges nameSpaces text,
        range.start ≤ offset ∧ offset < range.stop
    byteLength filtered = byteLength text ∧
    (∀ before c after, text = before ++ c :: after →
      let place := slice? filtered (byteLength before) (byteLength before + c.utf8Size)
      (Replaced (byteLength before) c → place = some (List.replicate c.utf8Size ' ')) ∧
        (¬ Replaced (byteLength before) c → place = some [c])) ∧
    (∀ offset c, c ≠ ' ' → slice? filtered offset (offset + c.utf8Size) = some [c] →
      slice? text offset (offset + c.utf8Size) = some [c]) ∧
    (∀ offset c, c = '\n' ∨ c = '\r' →
      (slice? filtered offset (offset + 1) = some [c] ↔ slice? text offset (offset + 1) = some [c])) := by
  intro filtered Replaced
  have blanked : filtered =
      blankWhere (covers (statementRanges text ++ controlTagRanges nameSpaces text)) 0 text :=
    Filter.apply_eq _ _
  rw [blanked]
  refine ⟨byteLength_blankWhere 0 text,fun before c after parts => ?_,
    fun offset c => slice_of_shown text offset c,fun offset c => slice_lineBreak text offset c⟩
  have sliced := @slice_blankWhere
    (covers (statementRanges text ++ controlTagRanges nameSpaces text)) before after c
  rw [← parts] at sliced
  dsimp only
  rw [sliced]
  constructor
  · rintro ⟨feed,carriage,inside⟩
    rw [if_pos ((covers_iff _ _).mpr inside),blankChar,if_neg (by simp [feed,carriage])]
  · intro kept
    split_ifs with inside
    · by_cases lineBreak : c = '\n' ∨ c = '\r'
      · rw [blankChar,if_pos (by simpa using lineBreak)]
      · rw [not_or] at lineBreak
        exact absurd ⟨lineBreak.1,lineBreak.2,(covers_iff _ _).mp inside⟩ kept
    · rfl

end AccessibleMarkup.Markup
