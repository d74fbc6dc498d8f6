import AccessibleMarkup.Proofs.LexerPhases
import AccessibleMarkup.Proofs.TagPlaces

/-! The tags that are found from any offset of any text on. They stand one after the other between their brackets,
only the last one can be cut off, and raw text lasts until the closing tag of its own element. -/
namespace AccessibleMarkup.Markup

open Text

/-- What the tags found in a text from a position on promise. -/
structure TagSequence (text : List Char) (position : Nat) (tags : List Tag) : Prop where
  bounded : ∀ tag ∈ tags, position ≤ tag.start ∧ tag.start < tag.stop ∧ tag.stop ≤ byteLength text
  /-- There are no more tags than bytes. -/
  few : tags.length ≤ byteLength text - position
  written : ∀ tag ∈ tags, ∃ inner, slice? text tag.start tag.stop = some ('<' :: inner)
  apart : tags.Pairwise fun first second => first.stop ≤ second.start
  cut : ∀ tag ∈ tags, tag.terminated = false → tag.stop = byteLength text ∧ tags.getLast? = some tag
  raw : ∀ (front back : List Tag) (tag next : Tag) (element : RawElement), tags = front ++ tag :: next :: back →
    tag.kind = .opening false → tag.terminated = true → sameIgnoringCase tag.name element.name = true →
      next.kind = .closing ∧ sameIgnoringCase next.name tag.name = true

theorem RawElement.ofName?_of_same {name : String} {element : RawElement}
    (same : sameIgnoringCase name element.name = true) : ofName? name = some element := by
  have lower : asciiLower name = asciiLower element.name := by simpa [sameIgnoringCase] using same
  unfold ofName?
  rw [lower]
  cases element <;> rfl

namespace TagsInOrder

variable {length position : Nat} {tags : List Tag}

theorem length_add_le (ordered : TagsInOrder length position tags) : tags.length + position ≤ length := by
  induction tags generalizing position with
  | nil => simpa [TagsInOrder] using ordered
  | cons tag rest ih =>
    obtain ⟨⟨after,nonempty,_⟩,following⟩ := ordered
    have := ih following
    rw [List.length_cons]
    omega

theorem cut_last (ordered : TagsInOrder length position tags) (tag : Tag) (member : tag ∈ tags)
    (cut : tag.terminated = false) : tag.stop = length ∧ tags.getLast? = some tag := by
  induction tags generalizing position with
  | nil => contradiction
  | cons first rest ih =>
    obtain ⟨⟨_,_,_,open_⟩,following⟩ := ordered
    rcases List.mem_cons.mp member with rfl | later
    · refine ⟨open_ cut,?_⟩
      cases rest with
      | nil => rfl
      | cons next more =>
        obtain ⟨⟨after,nonempty,inside,_⟩,_⟩ := following
        have := open_ cut
        omega
    · obtain ⟨stop,last⟩ := ih following later
      exact ⟨stop,by rw [List.getLast?_cons,last]; rfl⟩

end TagsInOrder

theorem lexFrom_behind {phase : LexPhase} {offset : Nat} {text : List Char} {front back : List Tag} {tag : Tag}
    (found : lexFrom phase offset text = front ++ tag :: back) (terminated : tag.terminated = true) :
    ∃ stop rest, back = lexFrom (.behind tag) stop rest := by
  induction text generalizing phase offset front with
  | nil =>
    have last : tag ∈ (phase.finish offset).toList := by
      rw [← lexFrom,found]
      simp
    rw [phase.finish_cut offset tag (Option.mem_toList.mp last)] at terminated
    contradiction
  | cons c rest ih =>
    rw [lexFrom_cons] at found
    cases ended : (phase.step offset c).2 with
    | none =>
      rw [ended] at found
      exact ih found
    | some first =>
      rw [ended,Option.toList_some,List.singleton_append] at found
      cases front with
      | nil =>
        obtain ⟨rfl,rfl⟩ := List.cons.inj found
        rw [(LexPhase.turn_of_given ended).behind]
        exact ⟨_,rest,rfl⟩
      | cons _ more => exact ih (List.cons.inj found).2

theorem lexFrom_raw_closed {phase : LexPhase} {offset : Nat} {text : List Char} {front back : List Tag}
    {tag next : Tag} {element : RawElement} (found : lexFrom phase offset text = front ++ tag :: next :: back)
    (kind : tag.kind = .opening false) (terminated : tag.terminated = true)
    (same : sameIgnoringCase tag.name element.name = true) :
    next.kind = .closing ∧ sameIgnoringCase next.name tag.name = true := by
  obtain ⟨stop,rest,further⟩ := lexFrom_behind found terminated
  have raw : LexPhase.behind tag = .raw element := by
    simp [LexPhase.behind,LexPhase.afterOpening,kind,RawElement.ofName?_of_same same]
  have inside : (LexPhase.behind tag).InRaw element := Or.inl raw
  rcases inside.lexFrom stop rest with none | ⟨first,more,read,closing,ended⟩
  · rw [none] at further
    contradiction
  · obtain ⟨rfl,_⟩ := List.cons.inj (further.trans read)
    simp only [RawElement.endedBy,sameIgnoringCase,beq_iff_eq] at ended same ⊢
    exact ⟨closing,ended.trans same.symm⟩

theorem tagSequence_none (text : List Char) (position : Nat) : TagSequence text position [] where
  bounded := by simp
  few := by simp
  written := by simp
  apart := .nil
  cut := by simp
  raw := by simp

theorem tagSequence_lexFrom (before rest : List Char) :
    TagSequence (before ++ rest) (byteLength before) (lexFrom .text (byteLength before) rest) := by
  have ordered := lexFrom_inOrder .text (byteLength before) (byteLength before) rest (Nat.le_refl _)
    (by simp [LexPhase.start?])
  rw [← byteLength_append] at ordered
  refine ⟨fun tag member => ⟨ordered.le_start tag member,ordered.between tag member⟩,?_,fun tag member => ?_,
    ordered.pairwise,ordered.cut_last,fun front back tag next element found => lexFrom_raw_closed found⟩
  · have := ordered.length_add_le
    omega
  · obtain ⟨read,after,parts,ends,_⟩ := lexFrom_standsIn .text before rest trivial tag member
    obtain ⟨inner,front,rfl,start⟩ := ends.opens
    have found := slice?_append front ('<' :: inner) after
    have stop : tag.start + byteLength ('<' :: inner) = tag.stop := by
      rw [ends.stop,byteLength_append,start]
    rw [start,stop,← List.append_assoc,← parts] at found
    exact ⟨inner,found⟩

/-- Reading a text from any position on ends and finds tags that stand in order at brackets of the text. -/
theorem lexAt_sequence (text : List Char) (position : Nat) : TagSequence text position (lexAt text position) := by
  unfold lexAt
  dsimp only
  cases split : splitAt? text (min position (byteLength text)) with
  | none => exact tagSequence_none text position
  | some parts =>
    obtain ⟨before,rest⟩ := parts
    obtain ⟨rfl,place⟩ := splitAt?_some _ _ _ _ split
    have sequence := tagSequence_lexFrom before rest
    rw [← place]
    by_cases inside : position ≤ byteLength (before ++ rest)
    · rwa [← Nat.min_eq_left inside,← place]
    · -- Past the end nothing is left to read.
      have nothing : rest = [] := by
        have size := length_le_byteLength rest
        rw [byteLength_append] at place inside
        exact List.eq_nil_of_length_eq_zero (by omega)
      subst nothing
      exact tagSequence_none _ position

end AccessibleMarkup.Markup
