import AccessibleMarkup.Repair.Edit
import Mathlib.Tactic.SplitIfs

/-! Splitting texts at byte offsets: a split exists exactly where one part ends and the next begins,
and slices and edits can be read off the parts. -/
namespace AccessibleMarkup

namespace Text

@[simp, grind =] theorem utf8Size_of_ascii {c : Char} (ascii : c.toNat < 128) : c.utf8Size = 1 := by
  rw [Char.utf8Size_eq_one_iff]
  exact Nat.le_of_lt_succ ascii

theorem length_le_byteLength (text : List Char) : text.length ≤ byteLength text := by
  induction text with
  | nil => simp
  | cons c rest ih =>
    have size := Char.utf8Size_pos c
    grind

theorem byteLength_pos {chars : List Char} (nonempty : chars ≠ []) : 0 < byteLength chars := by
  obtain ⟨c,rest,rfl⟩ := List.exists_cons_of_ne_nil nonempty
  have size := Char.utf8Size_pos c
  grind

@[simp] theorem byteLength_reverse (text : List Char) : byteLength text.reverse = byteLength text := by
  induction text with
  | nil => rfl
  | cons c rest ih => simp [ih,Nat.add_comm]

theorem add_byteLength_concat (base : Nat) (read : List Char) (c : Char) :
    base + byteLength (read ++ [c]) = base + byteLength read + c.utf8Size := by
  simp [Nat.add_assoc]

theorem byteLength_of_small (chars : List Char) (small : ∀ c ∈ chars, c.utf8Size = 1) :
    byteLength chars = chars.length := by
  induction chars with
  | nil => rfl
  | cons c rest ih =>
    rw [byteLength_cons,small c List.mem_cons_self,ih fun d inside => small d (List.mem_cons_of_mem _ inside),
      List.length_cons,Nat.add_comm]

theorem eq_or_before_of_pairwise {α : Type} {before : α → α → Prop} {items : List α}
    (sorted : items.Pairwise before) {first second : α} (one : first ∈ items) (other : second ∈ items) :
    first = second ∨ before first second ∨ before second first := by
  induction sorted with
  | nil => contradiction
  | cons ahead _ ih =>
    rcases List.mem_cons.mp one with rfl | here <;> rcases List.mem_cons.mp other with rfl | there
    · exact Or.inl rfl
    · exact Or.inr (Or.inl (ahead second there))
    · exact Or.inr (Or.inr (ahead first here))
    · exact ih here there

/-- Two ways to cut a text, the first not after the second. -/
theorem append_of_byteLength_le {first second front rest : List Char} (same : first ++ second = front ++ rest)
    (before : byteLength first ≤ byteLength front) :
    ∃ middle, front = first ++ middle ∧ second = middle ++ rest := by
  rcases List.append_eq_append_iff.mp same with ⟨middle,rfl,rfl⟩ | ⟨middle,rfl,rfl⟩
  · exact ⟨middle,rfl,rfl⟩
  · have empty : middle = [] := by
      have length := length_le_byteLength middle
      rw [byteLength_append] at before
      exact List.eq_nil_of_length_eq_zero (by omega)
    subst empty
    exact ⟨[],by simp,by simp⟩

theorem charsBefore_append (first second : List Char) :
    charsBefore (first ++ second) (byteLength first) = first := by
  induction first with
  | nil =>
    cases second with
    | nil => rfl
    | cons c rest =>
      have size := Char.utf8Size_pos c
      rw [List.nil_append,byteLength_nil,charsBefore,if_neg (by omega)]
  | cons c rest ih =>
    rw [List.cons_append,byteLength_cons,charsBefore,if_pos (Nat.le_add_right _ _),
      Nat.add_sub_cancel_left,ih]

@[simp] theorem splitAt?_append (first second : List Char) :
    splitAt? (first ++ second) (byteLength first) = some (first,second) := by
  induction first with
  | nil => simp [splitAt?]
  | cons c rest ih =>
    have size := Char.utf8Size_pos c
    obtain ⟨n,count⟩ : ∃ n, byteLength (c :: rest) = n + 1 := ⟨byteLength (c :: rest) - 1,by simp; omega⟩
    rw [byteLength_cons] at count
    rw [List.cons_append,byteLength_cons,count,splitAt?,if_pos (by omega)]
    have left : n + 1 - c.utf8Size = byteLength rest := by omega
    rw [left,ih]
    rfl

theorem splitAt?_some (text first second : List Char) (offset : Nat)
    (found : splitAt? text offset = some (first,second)) :
    text = first ++ second ∧ byteLength first = offset := by
  induction text generalizing first offset with
  | nil =>
    cases offset with
    | zero => simp_all [splitAt?]
    | succ n => simp [splitAt?] at found
  | cons c rest ih =>
    cases offset with
    | zero => simp_all [splitAt?]
    | succ n =>
      rw [splitAt?] at found
      split at found
      next fits =>
        obtain ⟨⟨before,after⟩,inner,same⟩ := Option.map_eq_some_iff.mp found
        obtain ⟨rfl,rfl⟩ := Prod.mk.inj same
        obtain ⟨parts,size⟩ := ih before _ inner
        refine ⟨by rw [parts]; rfl,?_⟩
        grind
      next inside => contradiction

@[simp] theorem slice?_append (before found after : List Char) :
    slice? (before ++ (found ++ after)) (byteLength before) (byteLength before + byteLength found) =
      some found := by
  rw [slice?,if_pos (Nat.le_add_right _ _),splitAt?_append,Option.bind_some,Nat.add_sub_cancel_left,
    splitAt?_append]
  rfl

theorem slice?_some (text found : List Char) (start stop : Nat)
    (sliced : slice? text start stop = some found) :
    ∃ before after, text = before ++ (found ++ after) ∧ byteLength before = start ∧
      stop = start + byteLength found := by
  unfold slice? at sliced
  split at sliced
  next ordered =>
    obtain ⟨⟨before,rest⟩,first,inner⟩ := Option.bind_eq_some_iff.mp sliced
    obtain ⟨⟨middle,after⟩,second,rfl⟩ := Option.map_eq_some_iff.mp inner
    obtain ⟨rfl,size⟩ := splitAt?_some _ _ _ _ first
    obtain ⟨same,width⟩ := splitAt?_some _ _ _ _ second
    exact ⟨before,after,by rw [← same],size,by rw [width]; omega⟩
  next reversed => contradiction

theorem slice?_append_right (text found more : List Char) (start stop : Nat)
    (sliced : slice? text start stop = some found) : slice? (text ++ more) start stop = some found := by
  obtain ⟨before,after,rfl,rfl,rfl⟩ := slice?_some text found start stop sliced
  rw [List.append_assoc,List.append_assoc]
  exact slice?_append before found (after ++ more)

theorem splitAt?_append_of_le (first second : List Char) (offset : Nat) (inside : offset ≤ byteLength first) :
    splitAt? (first ++ second) offset = (splitAt? first offset).map fun parts => (parts.1,parts.2 ++ second) := by
  induction first generalizing offset with
  | nil =>
    obtain rfl : offset = 0 := by simpa using inside
    cases second <;> rfl
  | cons c rest ih =>
    cases offset with
    | zero => rfl
    | succ offset =>
      rw [byteLength_cons] at inside
      simp only [List.cons_append,splitAt?]
      split_ifs
      · rw [ih _ (by omega),Option.map_map,Option.map_map]
        rfl
      · rfl

theorem splitAt?_append_add (first second : List Char) (offset : Nat) :
    splitAt? (first ++ second) (byteLength first + offset) =
      (splitAt? second offset).map fun parts => (first ++ parts.1,parts.2) := by
  induction first with
  | nil => simp
  | cons c rest ih =>
    have positive := c.utf8Size_pos
    obtain ⟨size,sum⟩ := Nat.exists_eq_add_of_le' (show 1 ≤ byteLength (c :: rest) + offset by
      rw [byteLength_cons]; omega)
    have left : size + 1 - c.utf8Size = byteLength rest + offset := by
      grind
    rw [sum,List.cons_append,splitAt?,if_pos (by rw [byteLength_cons] at sum; omega),left,ih,Option.map_map]
    rfl

theorem slice?_append_of_le (first second : List Char) (start stop : Nat) (inside : stop ≤ byteLength first) :
    slice? (first ++ second) start stop = slice? first start stop := by
  unfold slice?
  split_ifs with ordered
  · rw [splitAt?_append_of_le _ _ _ (by omega)]
    cases found : splitAt? first start with
    | none => rfl
    | some parts =>
      obtain ⟨rfl,size⟩ := splitAt?_some _ _ _ _ found
      rw [byteLength_append] at inside
      rw [Option.map_some,Option.bind_some,Option.bind_some,splitAt?_append_of_le _ _ _ (by omega),Option.map_map]
      rfl
  · rfl

theorem slice?_append_add (first second : List Char) (start stop : Nat) :
    slice? (first ++ second) (byteLength first + start) (byteLength first + stop) = slice? second start stop := by
  unfold slice?
  have size : byteLength first + stop - (byteLength first + start) = stop - start := by omega
  rw [splitAt?_append_add,size]
  simp only [Nat.add_le_add_iff_left]
  split_ifs
  · cases splitAt? second start <;> rfl
  · rfl

end Text

namespace Edit

open Text

theorem apply_replacement (before found after replacement : List Char) :
    (Edit.mk ⟨byteLength before,byteLength before + byteLength found⟩ replacement).apply
      (before ++ (found ++ after)) = .ok (before ++ replacement ++ after) := by
  have second := splitAt?_append (before ++ found) after
  rw [byteLength_append,List.append_assoc] at second
  simp [apply,second]

theorem apply_insertion (before after inserted : List Char) :
    (Edit.insertion (byteLength before) inserted).apply (before ++ after) =
      .ok (before ++ inserted ++ after) :=
  apply_replacement before [] after inserted

end Edit

end AccessibleMarkup
