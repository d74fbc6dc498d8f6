import AccessibleMarkup.Document.Basic
import AccessibleMarkup.Proofs.WrittenElements
import Mathlib.Data.List.TakeWhile
import Mathlib.Data.Prod.Lex

/-! Offsets as lines and columns. A line is counted by the line feeds before the offset, or found by a search among the
offsets where lines start, and a column by the characters since the last of these. Between characters the pair of line
and column grows with the offset. -/
namespace AccessibleMarkup

open Text Markup

namespace Text

def breaksLine (text : List Char) (offset : Nat) : Bool := slice? text offset (offset + 1) == some ['\n']

theorem breaksLine_append (first second : List Char) (offset : Nat) :
    breaksLine (first ++ second) (byteLength first + offset) = breaksLine second offset := by
  unfold breaksLine
  rw [Nat.add_assoc,slice?_append_add]

theorem breaksLine_head {c : Char} {rest : List Char} {offset : Nat} (inside : offset < c.utf8Size) :
    breaksLine (c :: rest) offset = true ↔ c = '\n' ∧ offset = 0 := by
  rw [breaksLine,beq_iff_eq]
  constructor
  · intro sliced
    obtain ⟨before,after,parts,place,_⟩ := slice?_some _ _ _ _ sliced
    cases before with
    | nil =>
      obtain ⟨rfl,_⟩ := List.cons.inj parts
      exact ⟨rfl,place.symm⟩
    | cons d before =>
      obtain ⟨rfl,_⟩ := List.cons.inj parts
      grind
  · rintro ⟨rfl,rfl⟩
    exact slice?_append [] ['\n'] rest

theorem count_charsBefore (text : List Char) (offset : Nat) :
    (charsBefore text offset).count '\n' = (List.range offset).countP (breaksLine text) := by
  induction text generalizing offset with
  | nil =>
    have none : ∀ i ∈ List.range offset, ¬ breaksLine [] i = true := by
      intro i _ breaks
      rw [breaksLine,beq_iff_eq] at breaks
      obtain ⟨before,after,parts,_⟩ := slice?_some _ _ _ _ breaks
      simp at parts
    rw [List.countP_eq_zero.mpr none]
    rfl
  | cons c rest ih =>
    have positive := c.utf8Size_pos
    rw [charsBefore]
    split_ifs with fits
    · obtain ⟨more,rfl⟩ := Nat.exists_eq_add_of_le fits
      have first : (List.range c.utf8Size).countP (breaksLine (c :: rest)) = if c = '\n' then 1 else 0 := by
        split_ifs with feed
        · subst feed
          have feeds : breaksLine ('\n' :: rest) 0 = true := (breaksLine_head positive).mpr ⟨rfl,rfl⟩
          have one : List.range (Char.utf8Size '\n') = [0] := rfl
          rw [one,List.countP_cons_of_pos feeds]
          rfl
        · refine List.countP_eq_zero.mpr fun i within breaks => feed ?_
          exact ((breaksLine_head (List.mem_range.mp within)).mp breaks).1
      have later : breaksLine (c :: rest) ∘ (c.utf8Size + ·) = breaksLine rest := by
        funext i
        exact breaksLine_append [c] rest i
      rw [List.range_add,List.countP_append,List.countP_map,later,first,← ih,Nat.add_sub_cancel_left,List.count_cons]
      simp only [beq_iff_eq]
      exact Nat.add_comm _ _
    · refine (List.countP_eq_zero.mpr fun i within breaks => ?_).symm
      have before := List.mem_range.mp within
      obtain ⟨rfl,_⟩ := (breaksLine_head (by omega)).mp breaks
      have one : Char.utf8Size '\n' = 1 := rfl
      omega

theorem lineStarts_append (first second : List Char) :
    lineStarts (first ++ second) = lineStarts first ++ lineStartsFrom (byteLength first) second := by
  rw [lineStarts,lineStarts,lineStartsFrom_append,Nat.zero_add,List.cons_append]

theorem length_lineStartsFrom (offset : Nat) (text : List Char) :
    (lineStartsFrom offset text).length = text.count '\n' := by
  induction text generalizing offset with
  | nil => rfl
  | cons c rest ih =>
    rw [lineStartsFrom,List.length_append,ih,List.count_cons]
    split_ifs <;> simp_all [Nat.add_comm]

theorem lineStartsFrom_unbroken (offset : Nat) (text : List Char) (unbroken : '\n' ∉ text) :
    lineStartsFrom offset text = [] := by
  rw [← List.length_eq_zero_iff,length_lineStartsFrom]
  exact List.count_eq_zero.mpr unbroken

theorem lt_of_lineStartsFrom {offset start : Nat} {text : List Char} (member : start ∈ lineStartsFrom offset text) :
    offset < start := by
  induction text generalizing offset with
  | nil => contradiction
  | cons c rest ih =>
    have positive := c.utf8Size_pos
    rw [lineStartsFrom,List.mem_append] at member
    rcases member with here | later
    · split_ifs at here
      · rw [List.mem_singleton.mp here]
        omega
      · contradiction
    · have := ih later
      omega

theorem lineStartsFrom_head {offset start : Nat} {c : Char} {rest : List Char}
    (member : start ∈ lineStartsFrom offset (c :: rest)) : offset + c.utf8Size ≤ start := by
  rw [lineStartsFrom,List.mem_append] at member
  rcases member with here | later
  · split_ifs at here
    · exact Nat.le_of_eq (List.mem_singleton.mp here).symm
    · contradiction
  · exact Nat.le_of_lt (lt_of_lineStartsFrom later)

theorem lineStartsFrom_sorted (offset : Nat) (text : List Char) : (lineStartsFrom offset text).Pairwise (· < ·) := by
  induction text generalizing offset with
  | nil => exact .nil
  | cons c rest ih =>
    rw [lineStartsFrom]
    split_ifs
    · exact List.pairwise_cons.mpr ⟨fun start member => lt_of_lineStartsFrom member,ih _⟩
    · exact ih _

theorem lineStarts_sorted (text : List Char) : (lineStarts text).Pairwise (· < ·) :=
  List.pairwise_cons.mpr ⟨fun _ member => lt_of_lineStartsFrom member,lineStartsFrom_sorted 0 text⟩

theorem charsBefore_parts (text : List Char) (offset : Nat) :
    ∃ after, text = charsBefore text offset ++ after ∧ byteLength (charsBefore text offset) ≤ offset ∧
      ∀ c, after.head? = some c → offset < byteLength (charsBefore text offset) + c.utf8Size := by
  induction text generalizing offset with
  | nil => exact ⟨[],rfl,Nat.zero_le _,by simp⟩
  | cons c rest ih =>
    rw [charsBefore]
    split_ifs with fits
    · obtain ⟨after,parts,before,beyond⟩ := ih (offset - c.utf8Size)
      refine ⟨after,by rw [List.cons_append,← parts],?_,fun d head => ?_⟩
      · grind
      · have := beyond d head
        grind
    · refine ⟨c :: rest,rfl,Nat.zero_le _,?_⟩
      rintro d ⟨rfl⟩
      grind

end Text

namespace Location

/-- The line and the column, compared in this order. -/
def position (location : Location) : ℕ ×ₗ ℕ := toLex (location.line,location.column)

theorem lineBefore_parts (before : List Char) :
    ∃ lines, before = lines ++ (lineBefore before).reverse ∧ '\n' ∉ (lineBefore before).reverse ∧
      (lines = [] ∨ ∃ front, lines = front ++ ['\n']) := by
  refine ⟨(before.reverse.dropWhile (· != '\n')).reverse,?_,?_,?_⟩
  · rw [lineBefore,← List.reverse_append,List.takeWhile_append_dropWhile,List.reverse_reverse]
  · intro inside
    have other := List.mem_takeWhile_imp (List.mem_reverse.mp inside)
    simp at other
  · cases rest : before.reverse.dropWhile (· != '\n') with
    | nil => exact Or.inl rfl
    | cons c more =>
      have first := List.head?_dropWhile_not (· != '\n') before.reverse
      rw [rest] at first
      have same : c = '\n' := by simpa using first
      exact Or.inr ⟨more.reverse,by simp [same]⟩

theorem lineStarts_last {lines : List Char} (ended : lines = [] ∨ ∃ front, lines = front ++ ['\n']) :
    ∃ earlier, lineStarts lines = earlier ++ [byteLength lines] := by
  rcases ended with rfl | ⟨front,rfl⟩
  · exact ⟨[],rfl⟩
  · refine ⟨lineStarts front,?_⟩
    simp [lineStarts,lineStartsFrom_append,lineStartsFrom]

theorem lineBefore_append (before more : List Char) (unbroken : '\n' ∉ more) :
    lineBefore (before ++ more) = more.reverse ++ lineBefore before := by
  have passed : ∀ c ∈ more.reverse, (c != '\n') = true := by
    intro c member
    rw [bne_iff_ne]
    rintro rfl
    exact unbroken (List.mem_reverse.mp member)
  rw [lineBefore,List.reverse_append,List.takeWhile_append_of_pos passed,lineBefore]

theorem ofRange_between {text before after : List Char} {start : Nat} (parts : text = before ++ after)
    (place : min start (byteLength text) = byteLength before) (stop : Nat) :
    (ofRange text start stop).line = before.count '\n' + 1 ∧
      (ofRange text start stop).column = (lineBefore before).length + 1 := by
  have chars : charsBefore text (byteLength before) = before := by
    rw [parts]
    exact charsBefore_append before after
  simp only [ofRange,place,chars,columnAt,if_true,and_self]

/-- The column of an offset on a line that starts at another: in characters, or in bytes inside a character. -/
def columnFrom (text : List Char) (lineStart offset : Nat) : Nat :=
  ((slice? text lineStart offset).map List.length).getD (offset - lineStart) + 1

theorem byteLength_charsBefore {text found : List Char} {lineStart offset : Nat}
    (sliced : slice? text lineStart offset = some found) : byteLength (charsBefore text offset) = offset := by
  obtain ⟨before,after,parts,size,stop⟩ := slice?_some _ _ _ _ sliced
  have place : offset = byteLength (before ++ found) := by
    grind
  rw [← List.append_assoc] at parts
  rw [parts,place,charsBefore_append]

theorem columnAt_charsBefore {text lines after : List Char} {offset : Nat}
    (whole : text = charsBefore text offset ++ after)
    (parts : charsBefore text offset = lines ++ (lineBefore (charsBefore text offset)).reverse)
    (reached : byteLength (charsBefore text offset) ≤ offset) :
    columnAt (charsBefore text offset) offset = columnFrom text (byteLength lines) offset := by
  have size := congrArg byteLength parts
  rw [byteLength_append,byteLength_reverse] at size
  unfold columnAt columnFrom
  dsimp only
  split_ifs with between
  · have sliced := slice?_append lines (lineBefore (charsBefore text offset)).reverse after
    rw [byteLength_reverse,← size,between,← List.append_assoc,← parts,← whole] at sliced
    rw [sliced,Option.map_some,Option.getD_some,List.length_reverse]
  · have none : slice? text (byteLength lines) offset = none :=
      Option.eq_none_iff_forall_ne_some.mpr fun found sliced => between (byteLength_charsBefore sliced)
    rw [none,Option.map_none,Option.getD_none]
    omega

theorem ofRange_search (text : List Char) (start stop : Nat) :
    ∃ earlier lineStart later, lineStarts text = earlier ++ lineStart :: later ∧
      (ofRange text start stop).line = earlier.length + 1 ∧ lineStart ≤ (ofRange text start stop).offset ∧
      (∀ next ∈ later, (ofRange text start stop).offset < next) ∧
      (ofRange text start stop).column = columnFrom text lineStart (ofRange text start stop).offset := by
  obtain ⟨after,whole,reached,beyond⟩ := charsBefore_parts text (min start (byteLength text))
  simp only [ofRange]
  generalize min start (byteLength text) = offset at whole reached beyond ⊢
  obtain ⟨lines,parts,unbroken,ended⟩ := lineBefore_parts (charsBefore text offset)
  obtain ⟨earlier,last⟩ := lineStarts_last ended
  have table : lineStarts (charsBefore text offset) = earlier ++ [byteLength lines] := by
    rw [parts,lineStarts_append,lineStartsFrom_unbroken _ _ unbroken,List.append_nil,last]
  refine ⟨earlier,byteLength lines,lineStartsFrom (byteLength (charsBefore text offset)) after,?_,?_,?_,
    fun next member => ?_,columnAt_charsBefore whole parts reached⟩
  · have split := lineStarts_append (charsBefore text offset) after
    rw [← whole,table,List.append_assoc] at split
    exact split
  · have length := congrArg List.length table
    rw [lineStarts,List.length_cons,length_lineStartsFrom,List.length_append,List.length_singleton] at length
    exact length
  · have size := congrArg byteLength parts
    grind
  · cases after with
    | nil => contradiction
    | cons c rest => exact Nat.lt_of_lt_of_le (beyond c rfl) (lineStartsFrom_head member)

theorem position_lt (before more : List Char) (nonempty : more ≠ []) :
    toLex (before.count '\n' + 1,(lineBefore before).length + 1) <
      toLex ((before ++ more).count '\n' + 1,(lineBefore (before ++ more)).length + 1) := by
  rw [Prod.Lex.toLex_lt_toLex]
  by_cases broken : '\n' ∈ more
  · have feeds := List.count_pos_iff.mpr broken
    rw [List.count_append]
    exact Or.inl (by omega)
  · have filled := List.length_pos_iff.mpr nonempty
    rw [List.count_append,List.count_eq_zero.mpr broken,lineBefore_append _ _ broken,List.length_append,
      List.length_reverse]
    exact Or.inr ⟨rfl,by omega⟩

end Location

/-- What the places of a document say about its offsets. -/
structure Document.PlacesExactly (doc : Document) : Prop where
  offset : ∀ start stop, (doc.location start stop).offset = min start doc.length
  stop : ∀ start stop, (doc.location start stop).offset + (doc.location start stop).length =
    max (doc.location start stop).offset (min stop doc.length)
  line : ∀ start stop, (doc.location start stop).line =
    1 + (List.range (doc.location start stop).offset).countP (breaksLine doc.source)
  column : ∀ (start stop : Nat) (before after : List Char), doc.source = before ++ after →
    (doc.location start stop).offset = byteLength before →
      ∃ lines last, before = lines ++ last ∧ '\n' ∉ last ∧ (lines = [] ∨ ∃ front, lines = front ++ ['\n']) ∧
        (doc.location start stop).column = 1 + last.length
  /-- A search in the sorted list of line starts finds the same line, and the column is counted from there. -/
  search : (lineStarts doc.source).Pairwise (· < ·) ∧ ∀ start stop, ∃ earlier lineStart later,
    lineStarts doc.source = earlier ++ lineStart :: later ∧
      (doc.location start stop).line = earlier.length + 1 ∧ lineStart ≤ (doc.location start stop).offset ∧
      (∀ next ∈ later, (doc.location start stop).offset < next) ∧
      (doc.location start stop).column = Location.columnFrom doc.source lineStart (doc.location start stop).offset
  increasing : ∀ a b i j, Boundary doc.source (doc.location a i).offset → Boundary doc.source (doc.location b j).offset →
    (doc.location a i).offset < (doc.location b j).offset → (doc.location a i).position < (doc.location b j).position
  determined : ∀ a b i j, Boundary doc.source (doc.location a i).offset → Boundary doc.source (doc.location b j).offset →
    (doc.location a i).position = (doc.location b j).position → (doc.location a i).offset = (doc.location b j).offset

theorem Location.position_mono {text : List Char} {a b : Nat} (i j : Nat)
    (first : Boundary text (ofRange text a i).offset) (second : Boundary text (ofRange text b j).offset)
    (before : (ofRange text a i).offset < (ofRange text b j).offset) :
    (ofRange text a i).position < (ofRange text b j).position := by
  obtain ⟨front,rest,parts,here⟩ := first
  obtain ⟨longer,after,whole,there⟩ := second
  obtain ⟨more,rfl,rfl⟩ := append_of_byteLength_le (parts.symm.trans whole) (by omega)
  have nonempty : more ≠ [] := by
    rintro rfl
    rw [List.append_nil] at there
    omega
  obtain ⟨line,column⟩ := ofRange_between parts here.symm i
  obtain ⟨nextLine,nextColumn⟩ := ofRange_between whole there.symm j
  rw [position,position,line,column,nextLine,nextColumn]
  exact position_lt front more nonempty

/-- Every place of a document is exact, and the line and the column of an offset between characters determine it. -/
theorem Document.location_exact (doc : Document) : doc.PlacesExactly where
  offset _ _ := rfl
  stop start stop := by
    simp only [location,Location.ofRange,Document.length]
    omega
  line start stop := by
    simp only [location,Location.ofRange,count_charsBefore]
    exact Nat.add_comm _ _
  column start stop before after parts place := by
    obtain ⟨lines,split,unbroken,ended⟩ := Location.lineBefore_parts before
    refine ⟨lines,_,split,unbroken,ended,?_⟩
    rw [location,(Location.ofRange_between parts place stop).2,List.length_reverse,Nat.add_comm]
  search := ⟨lineStarts_sorted doc.source,Location.ofRange_search doc.source⟩
  increasing _ _ i j first second before := Location.position_mono i j first second before
  determined a b i j first second same := by
    rcases Nat.lt_trichotomy (doc.location a i).offset (doc.location b j).offset with less | equal | more
    · exact absurd same (ne_of_lt (Location.position_mono i j first second less))
    · exact equal
    · exact absurd same.symm (ne_of_lt (Location.position_mono j i second first more))

example : (Document.read "é\n\nab".toList).location 4 9 = { line := 3, column := 1, offset := 4, length := 2 } := by
  decide

end AccessibleMarkup
