import AccessibleMarkup.Markup.ControlFlow

/-! Filters: what is done to a text before its elements are looked for. A filter moves nothing, so an
offset in the filtered text is an offset in the text as written. -/
namespace AccessibleMarkup.Markup

open Text

/-- What rewrites a text before it is read. The text keeps its length in bytes, and its lines start
where they did. -/
structure MarkupFilter where
  apply : List Char → List Char
  byteLength_apply : ∀ text, byteLength (apply text) = byteLength text
  lineStarts_apply : ∀ text, lineStarts (apply text) = lineStarts text

theorem byteLength_replicate_space (count : Nat) : byteLength (List.replicate count ' ') = count := by
  induction count with
  | zero => rfl
  | succ count ih =>
    rw [List.replicate_succ, byteLength_cons, ih]
    exact Nat.add_comm _ _

@[simp] theorem byteLength_blankChar (c : Char) : byteLength (blankChar c) = c.utf8Size := by
  unfold blankChar
  split
  · exact Nat.add_zero _
  · exact byteLength_replicate_space _

theorem lineStartsFrom_replicate_space (offset count : Nat) :
    lineStartsFrom offset (List.replicate count ' ') = [] := by
  induction count generalizing offset with
  | zero => rfl
  | succ count ih =>
    rw [List.replicate_succ, lineStartsFrom, ih]
    rfl

/-- Blanking a character neither makes nor removes a line feed. -/
theorem lineStartsFrom_blankChar (offset : Nat) (c : Char) :
    lineStartsFrom offset (blankChar c) = lineStartsFrom offset [c] := by
  unfold blankChar
  split
  · rfl
  next other =>
    have unbroken : c ≠ '\n' := fun same => other (by simp [same])
    rw [lineStartsFrom_replicate_space, lineStartsFrom, if_neg unbroken]
    rfl

@[simp] theorem byteLength_blankFrom (ranges : List ByteRange) (offset : Nat) (text : List Char) :
    byteLength (blankFrom ranges offset text) = byteLength text := by
  induction text generalizing ranges offset with
  | nil => rfl
  | cons c rest ih =>
    rw [blankFrom, byteLength_append, ih, byteLength_cons]
    split
    · rw [byteLength_blankChar]
    · rfl

theorem lineStartsFrom_blankFrom (ranges : List ByteRange) (offset : Nat) (text : List Char) :
    lineStartsFrom offset (blankFrom ranges offset text) = lineStartsFrom offset text := by
  induction text generalizing ranges offset with
  | nil => rfl
  | cons c rest ih =>
    have parts := lineStartsFrom_append offset [c] rest
    rw [List.singleton_append] at parts
    rw [blankFrom, lineStartsFrom_append, parts]
    split
    · rw [byteLength_blankChar, lineStartsFrom_blankChar, ih]
      rfl
    · exact congrArg _ (ih _ _)

/-- What is blanked before a text is read. -/
inductive Filter where
  /-- Nothing. -/
  | keep
  /-- Template statements and the tags in the name spaces. -/
  | controlFlow (nameSpaces : List String)
  deriving DecidableEq, Repr

namespace Filter

def defaultNameSpaces : List String := ["c", "fn", "fmt", "jsp", "th", "ui", "tiles"]

def ranges (filter : Filter) (text : List Char) : List ByteRange :=
  match filter with
  | keep => []
  | controlFlow nameSpaces => statementRanges text ++ controlTagRanges nameSpaces text

def apply (filter : Filter) (text : List Char) : List Char :=
  match filter.ranges text with
  | [] => text
  | found => blank found text

@[simp] theorem apply_keep (text : List Char) : keep.apply text = text := rfl

def leavesAlone (filter : Filter) (text : List Char) : Bool := (filter.ranges text).isEmpty

@[simp] theorem byteLength_apply (filter : Filter) (text : List Char) :
    byteLength (filter.apply text) = byteLength text := by
  unfold apply
  split
  · rfl
  · exact byteLength_blankFrom _ 0 text

@[simp] theorem lineStarts_apply (filter : Filter) (text : List Char) :
    lineStarts (filter.apply text) = lineStarts text := by
  unfold apply
  split
  · rfl
  · exact congrArg (0 :: ·) (lineStartsFrom_blankFrom _ 0 text)

@[coe] def toMarkupFilter (filter : Filter) : MarkupFilter :=
  ⟨filter.apply, filter.byteLength_apply, filter.lineStarts_apply⟩

instance : Coe Filter MarkupFilter := ⟨toMarkupFilter⟩

@[simp] theorem apply_toMarkupFilter (filter : Filter) (text : List Char) :
    (filter : MarkupFilter).apply text = filter.apply text := rfl

end Filter

end AccessibleMarkup.Markup
