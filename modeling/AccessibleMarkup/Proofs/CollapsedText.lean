import AccessibleMarkup.Text.Blank
import Mathlib.Data.List.Chain

/-! Words and collapsed text. The words of a text are its longest runs without blanks, and the collapsed text has one
space between two words and no other blanks. -/
namespace AccessibleMarkup.Text

/-- The words of a text in order: each ends with the text or before a blank, and only blanks stand outside them. -/
inductive HasWords : List Char → List (List Char) → Prop
  | blank (gap : List Char) (blank : ∀ c ∈ gap, isBlank c = true) : HasWords gap []
  | word (gap run rest : List Char) (words : List (List Char)) (blank : ∀ c ∈ gap, isBlank c = true)
      (nonempty : run ≠ []) (solid : ∀ c ∈ run, isBlank c = false)
      (ended : ∀ c, rest.head? = some c → isBlank c = true) (more : HasWords rest words) :
      HasWords (gap ++ (run ++ rest)) (run :: words)

namespace HasWords

variable {c : Char} {text : List Char} {words : List (List Char)}

theorem solid (found : HasWords text words) : ∀ word ∈ words, word ≠ [] ∧ ∀ c ∈ word, isBlank c = false := by
  induction found with
  | blank gap blank => simp
  | word gap run rest words blank nonempty solid ended more ih =>
    intro word member
    rcases List.mem_cons.mp member with rfl | later
    · exact ⟨nonempty,solid⟩
    · exact ih word later

theorem cons_blank (found : HasWords text words) (blank : isBlank c = true) : HasWords (c :: text) words := by
  cases found with
  | blank gap others => exact .blank (c :: text) (List.forall_mem_cons.mpr ⟨blank,others⟩)
  | word gap run rest words others nonempty solid ended more =>
    exact .word (c :: gap) run rest words (List.forall_mem_cons.mpr ⟨blank,others⟩) nonempty solid ended more

theorem cons_word (found : HasWords text words) (solid : isBlank c = false)
    (ended : ∀ d, text.head? = some d → isBlank d = true) : HasWords (c :: text) ([c] :: words) :=
  .word [] [c] text words (by simp) (by simp) (by simpa using solid) ended found

theorem cons_solid {d : Char} {rest : List Char} (found : HasWords (d :: rest) words) (solid : isBlank c = false)
    (next : isBlank d = false) :
    ∃ word more, words = word :: more ∧ HasWords (c :: d :: rest) ((c :: word) :: more) := by
  have starts {gap others : List Char} (blank : ∀ c ∈ gap, isBlank c = true) (same : d :: rest = gap ++ others) :
      gap = [] := by
    cases gap with
    | nil => rfl
    | cons first gap =>
      obtain ⟨rfl,_⟩ := List.cons.inj same
      rw [blank d List.mem_cons_self] at next
      contradiction
  generalize same : d :: rest = whole at found
  cases found with
  | blank gap blank =>
    rw [starts blank (same.trans (List.append_nil whole).symm)] at same
    contradiction
  | word gap run tail words blank nonempty others ended more =>
    obtain rfl := starts blank same
    exact ⟨run,words,rfl,.word [] (c :: run) tail words blank (by simp) (List.forall_mem_cons.mpr ⟨solid,others⟩) ended
      more⟩

end HasWords

theorem hasWords_wordRuns (text : List Char) : HasWords text (wordRuns text) := by
  fun_induction wordRuns text with
  | case1 => exact .blank [] (by simp)
  | case2 c rest blank ih => exact ih.cons_blank blank
  | case3 c other =>
    exact HasWords.cons_word (.blank [] (by simp)) (Bool.eq_false_iff.mpr other) (by simp)
  | case4 c other d rest blank ih =>
    exact ih.cons_word (Bool.eq_false_iff.mpr other) (by rintro e ⟨rfl⟩; exact blank)
  | case5 c other d rest next runs ih =>
    obtain ⟨word,more,same,_⟩ := ih.cons_solid (Bool.eq_false_iff.mpr other) (Bool.eq_false_iff.mpr next)
    rw [runs] at same
    contradiction
  | case6 c other d rest next word more runs ih =>
    obtain ⟨first,later,same,found⟩ := ih.cons_solid (Bool.eq_false_iff.mpr other) (Bool.eq_false_iff.mpr next)
    obtain ⟨rfl,rfl⟩ := List.cons.inj (runs.symm.trans same)
    rw [runs]
    exact found

/-- No blank stands first, last or beside another one. -/
structure Collapsed (text : List Char) : Prop where
  first : ∀ c, text.head? = some c → isBlank c = false
  last : ∀ c, text.getLast? = some c → isBlank c = false
  single : text.IsChain fun c d => isBlank c = true → isBlank d = false

theorem collapsed_solid {word : List Char} (solid : ∀ c ∈ word, isBlank c = false) : Collapsed word where
  first c head := solid c (List.mem_of_head? head)
  last c last := solid c (List.mem_of_getLast? last)
  single := List.Pairwise.isChain (List.Pairwise.imp_of_mem (fun _ member _ _ => solid _ member)
    (List.pairwise_of_forall fun _ _ => trivial))

theorem collapsed_intercalate {words : List (List Char)}
    (solid : ∀ word ∈ words, word ≠ [] ∧ ∀ c ∈ word, isBlank c = false) : Collapsed ([' '].intercalate words) := by
  induction words with
  | nil => exact collapsed_solid (by simp [List.intercalate])
  | cons word others ih =>
    obtain ⟨nonempty,chars⟩ := solid word List.mem_cons_self
    have here := collapsed_solid chars
    cases others with
    | nil => simpa [List.intercalate] using here
    | cons next others =>
      have rest := ih fun other member => solid other (List.mem_cons_of_mem _ member)
      obtain ⟨head,tail,starts⟩ : ∃ head tail, [' '].intercalate (next :: others) = head :: tail := by
        obtain ⟨first,more,same⟩ := List.exists_cons_of_ne_nil (solid next (by simp)).1
        cases others <;> simp [List.intercalate,same]
      rw [List.intercalate_cons_cons,List.append_assoc]
      rw [starts] at rest ⊢
      refine ⟨fun c first => ?_,fun c last => ?_,?_⟩
      · rw [List.head?_append_of_ne_nil _ nonempty] at first
        exact here.first c first
      · exact rest.last c (by simpa using last)
      · refine List.isChain_append.mpr ⟨here.single,List.isChain_cons.mpr ⟨?_,rest.single⟩,fun c last _ _ blank => ?_⟩
        · rintro c ⟨rfl⟩ _
          exact rest.first _ rfl
        · rw [here.last c last] at blank
          contradiction

theorem collapse_words (text : List Char) :
    ∃ words, HasWords text words ∧ (collapse text).toList = [' '].intercalate words ∧
      Collapsed (collapse text).toList := by
  have found := hasWords_wordRuns text
  have chars : (collapse text).toList = [' '].intercalate (wordRuns text) := by
    rw [collapse,String.toList_intercalate,List.map_map]
    simp [Function.comp_def]
  exact ⟨_,found,chars,by rw [chars]; exact collapsed_intercalate found.solid⟩

end AccessibleMarkup.Text
