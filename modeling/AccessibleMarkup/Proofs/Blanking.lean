import AccessibleMarkup.Markup.Filter
import AccessibleMarkup.Proofs.ByteSlices
import AccessibleMarkup.Proofs.Lexing

/-! What a filter does to a text. Whatever ranges overlap, the text is blanked exactly where one of them
covers it, byte by byte. So what is still shown stands where it stood in the text as written, and what
comes right after it there is shown too, or starts a range. -/
namespace AccessibleMarkup.Markup

open Text

def covers (ranges : List ByteRange) (offset : Nat) : Bool := ranges.any (·.contains offset)

/-- A text that starts at an offset, blanked where the offset of a character is covered. -/
def blankWhere (covered : Nat → Bool) : Nat → List Char → List Char
  | _, [] => []
  | offset, c :: rest =>
    (if covered offset then blankChar c else [c]) ++
      blankWhere covered (offset + c.utf8Size) rest

variable {covered : Nat → Bool}

theorem blankWhere_congr {other : Nat → Bool} (offset : Nat) (text : List Char)
    (same : ∀ place, offset ≤ place → covered place = other place) :
    blankWhere covered offset text = blankWhere other offset text := by
  induction text generalizing offset with
  | nil => rfl
  | cons c rest ih =>
    rw [blankWhere,blankWhere,same offset (Nat.le_refl _),
      ih _ fun place later => same place (by omega)]

theorem blankWhere_none (offset : Nat) (text : List Char) (none : ∀ place, covered place = false) :
    blankWhere covered offset text = text := by
  induction text generalizing offset with
  | nil => rfl
  | cons c rest ih => rw [blankWhere,none,ih]; rfl

theorem blankWhere_append (offset : Nat) (first second : List Char) :
    blankWhere covered offset (first ++ second) =
      blankWhere covered offset first ++ blankWhere covered (offset + byteLength first) second := by
  induction first generalizing offset with
  | nil => rfl
  | cons c rest ih =>
    rw [List.cons_append,blankWhere,blankWhere,ih,byteLength_cons,List.append_assoc,Nat.add_assoc]

@[simp] theorem byteLength_blankWhere (offset : Nat) (text : List Char) :
    byteLength (blankWhere covered offset text) = byteLength text := by
  induction text generalizing offset with
  | nil => rfl
  | cons c rest ih =>
    rw [blankWhere,byteLength_append,ih,byteLength_cons]
    split_ifs
    · rw [byteLength_blankChar]
    · simp

theorem covers_dropWhile (ranges : List ByteRange) (offset place : Nat) (later : offset ≤ place) :
    covers (ranges.dropWhile (·.stop ≤ offset)) place = covers ranges place := by
  induction ranges with
  | nil => rfl
  | cons range rest ih =>
    rw [List.dropWhile_cons]
    split_ifs with ended
    · have past : range.contains place = false := by
        simp only [decide_eq_true_eq] at ended
        simp [ByteRange.contains]
        omega
      rw [ih]
      simp [covers,past]
    · rfl

theorem covers_head (ranges : List ByteRange) (offset : Nat)
    (sorted : ranges.Pairwise fun left right => left.start ≤ right.start)
    (ahead : ∀ range, ranges.head? = some range → offset < range.stop) :
    ranges.head?.any (·.contains offset) = covers ranges offset := by
  cases ranges with
  | nil => rfl
  | cons range rest =>
    have open_ := ahead range rfl
    cases here : range.contains offset with
    | true => simp [covers,here]
    | false =>
      have before : offset < range.start := by
        simp [ByteRange.contains] at here
        omega
      have none : rest.any (·.contains offset) = false := by
        rw [List.any_eq_false]
        intro other member
        have after := (List.pairwise_cons.mp sorted).1 other member
        simp [ByteRange.contains]
        omega
      simp [covers,here,none]

theorem blankFrom_eq (ranges : List ByteRange) (offset : Nat) (text : List Char)
    (sorted : ranges.Pairwise fun left right => left.start ≤ right.start) :
    blankFrom ranges offset text = blankWhere (covers ranges) offset text := by
  induction text generalizing ranges offset with
  | nil => rfl
  | cons c rest ih =>
    have still := sorted.sublist (List.dropWhile_sublist (fun range => decide (range.stop ≤ offset)))
    have ahead : ∀ range, (ranges.dropWhile (·.stop ≤ offset)).head? = some range →
        offset < range.stop := by
      intro range first
      have kept := List.head?_dropWhile_not (fun range => decide (range.stop ≤ offset)) ranges
      rw [first] at kept
      simpa using kept
    rw [blankFrom,blankWhere,covers_head _ _ still ahead,covers_dropWhile _ _ _ (Nat.le_refl _),
      ih _ _ still]
    congr 1
    exact blankWhere_congr _ _ fun place later => covers_dropWhile _ _ _ (by omega)

theorem blank_eq (ranges : List ByteRange) (text : List Char) :
    blank ranges text = blankWhere (covers ranges) 0 text := by
  have sorted := @List.pairwise_mergeSort ByteRange
    (fun left right => decide (left.start ≤ right.start))
    (fun first second third => by simpa using Nat.le_trans)
    (fun first second => by simpa using Nat.le_total _ _) ranges
  rw [blank,blankFrom_eq _ _ _ (by simpa using sorted)]
  apply blankWhere_congr
  intro place _
  rw [Bool.eq_iff_iff,covers,covers,List.any_eq_true,List.any_eq_true]
  simp only [List.mem_mergeSort]

theorem Filter.apply_eq (filter : Filter) (text : List Char) :
    filter.apply text = blankWhere (covers (filter.ranges text)) 0 text := by
  unfold Filter.apply
  split
  next none =>
    rw [none]
    exact (blankWhere_none 0 text fun _ => rfl).symm
  next => exact blank_eq _ _

/-- A character that is still shown stands where it stood before. -/
theorem blankWhere_shown (offset : Nat) (source first rest : List Char) (c : Char)
    (found : blankWhere covered offset source = first ++ c :: rest) (shown : c ≠ ' ') :
    ∃ before after, source = before ++ c :: after ∧ first = blankWhere covered offset before ∧
      rest = blankWhere covered (offset + byteLength before + c.utf8Size) after ∧
      (covered (offset + byteLength before) = true → c = '\n' ∨ c = '\r') := by
  induction source generalizing offset first with
  | nil => simp [blankWhere] at found
  | cons d source ih =>
    rw [blankWhere] at found
    have here : (if covered offset then blankChar d else [d]) = [d] ∧
        (covered offset = true → d = '\n' ∨ d = '\r') ∨
        ∀ e ∈ if covered offset then blankChar d else [d], e = ' ' := by
      unfold blankChar
      split_ifs with _ kept
      · exact Or.inl ⟨rfl,fun _ => by simpa using kept⟩
      · exact Or.inr fun e member => List.eq_of_mem_replicate member
      · exact Or.inl ⟨rfl,fun inside => by contradiction⟩
    rcases List.append_eq_append_iff.mp found with ⟨more,rfl,later⟩ | ⟨more,whole,later⟩
    · obtain ⟨before,after,rfl,rfl,same,kept⟩ := ih _ _ later
      refine ⟨d :: before,after,rfl,by rw [blankWhere],?_,?_⟩
      · rw [same,byteLength_cons]
        congr 1
        omega
      · rwa [byteLength_cons,← Nat.add_assoc]
    · cases more with
      | nil =>
        rw [List.append_nil] at whole
        obtain ⟨before,after,rfl,nothing,same,kept⟩ := ih _ [] later.symm
        refine ⟨d :: before,after,rfl,?_,?_,?_⟩
        · rw [blankWhere,← whole,← nothing,List.append_nil]
        · rw [same,byteLength_cons]
          congr 1
          omega
        · rwa [byteLength_cons,← Nat.add_assoc]
      | cons e more =>
        obtain ⟨rfl,follows⟩ := List.cons.inj later
        rcases here with ⟨alone,kept⟩ | spaces
        · rw [alone] at whole
          cases first with
          | nil =>
            obtain ⟨rfl,rfl⟩ := List.cons.inj whole
            exact ⟨[],source,rfl,rfl,follows,kept⟩
          | cons _ first => simp at whole
        · exact absurd (spaces c (by rw [whole]; simp)) shown

theorem blankWhere_shown_all (offset : Nat) (source first chars rest : List Char) (nonempty : chars ≠ [])
    (found : blankWhere covered offset source = first ++ (chars ++ rest)) (shown : ∀ c ∈ chars, c ≠ ' ') :
    ∃ before after, source = before ++ (chars ++ after) ∧ first = blankWhere covered offset before ∧
      rest = blankWhere covered (offset + byteLength before + byteLength chars) after := by
  induction chars generalizing offset source first with
  | nil => contradiction
  | cons c chars ih =>
    obtain ⟨before,after,rfl,rfl,follows,_⟩ :=
      blankWhere_shown offset source first (chars ++ rest) c found (shown c List.mem_cons_self)
    cases chars with
    | nil => exact ⟨before,after,rfl,rfl,by rw [byteLength_cons,byteLength_nil,Nat.add_zero]; exact follows⟩
    | cons d chars =>
      obtain ⟨inner,last,rfl,nothing,same⟩ := ih _ after [] (by simp) follows.symm
        fun e member => shown e (List.mem_cons_of_mem _ member)
      have empty : inner = [] := by
        have size := @byteLength_blankWhere covered (offset + byteLength before + c.utf8Size) inner
        rw [← nothing] at size
        cases inner with
        | nil => rfl
        | cons e inner =>
          have positive := Char.utf8Size_pos e
          grind
      subst empty
      refine ⟨before,last,rfl,rfl,?_⟩
      rw [same,byteLength_nil,Nat.add_zero,byteLength_cons (c := c),Nat.add_assoc _ c.utf8Size]

end AccessibleMarkup.Markup
