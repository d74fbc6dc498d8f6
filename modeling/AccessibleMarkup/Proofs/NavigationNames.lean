import AccessibleMarkup.Proofs.FaultlessRules
import AccessibleMarkup.Proofs.LoneRules
import Mathlib.Data.List.Basic

/-! The names of navigations. A name keeps the markers of its template expressions in lower case, and the
names that dynamic lists of labels get differ by their last number. The main result is
`templated_name_shared_iff`. -/
namespace AccessibleMarkup

open Text Markup

namespace Text

/-- The characters below 128 that are not letters. No other character has one of them as its small form. -/
def isSymbol (c : Char) : Bool :=
  0 < c.toNat && c.toNat < 65 || 90 < c.toNat && c.toNat < 97 || 122 < c.toNat && c.toNat < 128

theorem isSymbol_range {c : Char} (symbol : isSymbol c = true) :
    0 < c.toNat ∧ c.toNat < 128 ∧ (c.toNat < 65 ∨ 90 < c.toNat) ∧ (c.toNat < 97 ∨ 122 < c.toNat) := by
  simp only [isSymbol,Bool.or_eq_true,Bool.and_eq_true,decide_eq_true_eq] at symbol
  omega

/-- A run that lowers large characters to characters below 128 is a single character with a letter as its
small form. -/
theorem lowerCaseRuns_symbols : ∀ run ∈ lowerCaseRuns, run.2.1 < 128 ∨ (128 : Int) ≤ run.1 + run.2.2.2 ∨
    run.1 = run.2.1 ∧ isSymbol (Char.ofNat ((run.1 : Int) + run.2.2.2).toNat) = false := by
  decide +kernel

theorem isSymbol_ofNat {code : Nat} (symbol : isSymbol (Char.ofNat code) = true) : code < 128 := by
  have range := isSymbol_range symbol
  by_cases valid : code.isValidChar
  · have same : Char.ofNat code = Char.ofNatAux code valid := dif_pos valid
    have value : (Char.ofNat code).toNat = code := congrArg Char.toNat same
    omega
  · have none : Char.ofNat code = '\x00' := dif_neg valid
    rw [none] at range
    exact absurd range.1 (by decide)

theorem eq_of_mem_lowerChar {c d : Char} (symbol : isSymbol d = true) (member : d ∈ lowerChar c) : c = d := by
  have range := isSymbol_range symbol
  unfold lowerChar at member
  dsimp only at member
  split_ifs at member with small dotted
  · obtain rfl := List.mem_singleton.mp member
    rcases toLower_cases c with same | letter
    · exact same.symm
    · change 97 ≤ c.toLower.toNat ∧ c.toLower.toNat ≤ 122 at letter
      omega
  · simp only [List.mem_cons,List.not_mem_nil,or_false] at member
    rcases member with rfl | rfl <;> exact absurd symbol (by decide)
  · split at member
    next first last step distance found =>
      obtain rfl := List.mem_singleton.mp member
      have bound := isSymbol_ofNat symbol
      have inside := Array.find?_some found
      simp only [Bool.and_eq_true,decide_eq_true_eq] at inside
      have listed := Array.mem_of_find?_eq_some found
      have known : last < 128 ∨ (128 : Int) ≤ first + distance ∨
          first = last ∧ isSymbol (Char.ofNat ((first : Int) + distance).toNat) = false :=
        lowerCaseRuns_symbols _ listed
      rcases known with ascii | large | ⟨lone,letter⟩
      · omega
      · omega
      · have here : c.toNat = first := by omega
        rw [here,letter] at symbol
        exact absurd symbol Bool.false_ne_true
    next => exact (List.mem_singleton.mp member).symm

theorem lowerChar_symbol {c : Char} (symbol : isSymbol c = true) : lowerChar c = [c] := by
  have range := isSymbol_range symbol
  have same : c.toLower = c := by
    refine dif_neg fun upper => ?_
    have first : 65 ≤ c.toNat := UInt32.le_iff_toNat_le.mp upper.1
    have last : c.toNat ≤ 90 := UInt32.le_iff_toNat_le.mp upper.2
    omega
  rw [lowerChar,if_pos range.2.1,same]

/-- The lower case of a text, character by character. What stands for a character holds no symbol but the
character itself. -/
theorem exists_lowered (before rest : List Char) (c : Char) :
    ∃ first more, lowerFrom before (c :: rest) = first :: (more ++ lowerFrom (c :: before) rest) ∧
      (∀ d ∈ first :: more, isSymbol d = true → c = d) ∧
      (isSymbol c = true → first = c ∧ more = []) := by
  rw [lowerFrom]
  split_ifs with sigma final
  · refine ⟨_,[],rfl,fun d member symbol => ?_,fun symbol => ?_⟩
    · obtain rfl := List.mem_singleton.mp member
      exact absurd symbol (by decide)
    · have := isSymbol_range symbol
      omega
  · refine ⟨_,[],rfl,fun d member symbol => ?_,fun symbol => ?_⟩
    · obtain rfl := List.mem_singleton.mp member
      exact absurd symbol (by decide)
    · have := isSymbol_range symbol
      omega
  · have nonempty : lowerChar c ≠ [] := by
      unfold lowerChar
      dsimp only
      split_ifs
      · exact List.cons_ne_nil _ _
      · exact List.cons_ne_nil _ _
      · split <;> exact List.cons_ne_nil _ _
    obtain ⟨first,more,parts⟩ := List.exists_cons_of_ne_nil nonempty
    refine ⟨first,more,by rw [parts,List.cons_append],fun d member symbol => ?_,fun symbol => ?_⟩
    · exact eq_of_mem_lowerChar symbol (by rwa [parts])
    · rw [lowerChar_symbol symbol,List.cons.injEq] at parts
      exact ⟨parts.1.symm,parts.2.symm⟩

theorem head_lowerFrom (before chars : List Char) {b : Char} (symbol : isSymbol b = true) :
    (lowerFrom before chars).head? = some b ↔ chars.head? = some b := by
  cases chars with
  | nil => rfl
  | cons c rest =>
    obtain ⟨first,more,lowered,only,kept⟩ := exists_lowered before rest c
    rw [lowered,List.head?_cons,List.head?_cons,Option.some.injEq,Option.some.injEq]
    constructor
    · rintro rfl
      exact only first List.mem_cons_self symbol
    · rintro rfl
      exact (kept symbol).1

theorem infix_append_of_notMem {a : Char} {tail front : List Char} (back : List Char) (other : a ∉ front) :
    a :: tail <:+: front ++ back ↔ a :: tail <:+: back := by
  induction front with
  | nil => rfl
  | cons c rest ih =>
    rw [List.cons_append,List.infix_cons_iff,ih fun member => other (List.mem_cons_of_mem _ member),
      List.cons_prefix_cons]
    have apart : a ≠ c := fun same => other (same ▸ List.mem_cons_self)
    simp [apart]

theorem pair_infix_lowerFrom {a b : Char} (symbol : isSymbol a = true) (second : isSymbol b = true)
    (before chars : List Char) : [a,b] <:+: lowerFrom before chars ↔ [a,b] <:+: chars := by
  induction chars generalizing before with
  | nil => rfl
  | cons c rest ih =>
    obtain ⟨first,more,lowered,only,kept⟩ := exists_lowered before rest c
    have head (list : List Char) : [b] <+: list ↔ list.head? = some b := by
      cases list <;> simp [List.cons_prefix_cons,eq_comm]
    by_cases same : a = c
    · obtain ⟨rfl,rfl⟩ := kept (same ▸ symbol)
      rw [lowered,List.nil_append,List.infix_cons_iff,List.infix_cons_iff,ih,List.cons_prefix_cons,
        List.cons_prefix_cons,head,head,head_lowerFrom _ _ second]
    · have absent : a ∉ first :: more := fun member => same (only a member symbol).symm
      rw [lowered,← List.cons_append,infix_append_of_notMem _ absent,ih,List.infix_cons_iff,
        List.cons_prefix_cons]
      simp [same]

theorem lowerFrom_symbols (before chars : List Char) (symbols : ∀ c ∈ chars, isSymbol c = true) :
    lowerFrom before chars = chars := by
  induction chars generalizing before with
  | nil => rfl
  | cons c rest ih =>
    obtain ⟨first,more,lowered,_,kept⟩ := exists_lowered before rest c
    obtain ⟨rfl,rfl⟩ := kept (symbols c List.mem_cons_self)
    rw [lowered,List.nil_append,ih _ fun d member => symbols d (List.mem_cons_of_mem _ member)]

theorem exists_lowered_append (before front back : List Char) :
    ∃ lowered, lowerFrom before (front ++ back) = lowered ++ lowerFrom (front.reverse ++ before) back := by
  induction front generalizing before with
  | nil => exact ⟨[],rfl⟩
  | cons c rest ih =>
    obtain ⟨first,more,parts,_⟩ := exists_lowered before (rest ++ back) c
    obtain ⟨lowered,same⟩ := ih (c :: before)
    refine ⟨first :: (more ++ lowered),?_⟩
    rw [List.cons_append,parts,same,List.reverse_cons,List.append_assoc,List.cons_append,List.append_assoc]
    rfl

theorem isSymbol_of_mem_digits {n : Nat} {c : Char} (member : c ∈ Nat.toDigits 10 n) :
    isSymbol c = true ∧ c ≠ '#' := by
  have digit := Nat.isDigit_of_mem_toDigits (by decide) (by decide) member
  unfold Char.isDigit at digit
  simp only [Bool.and_eq_true,decide_eq_true_eq,ge_iff_le,UInt32.le_iff_toNat_le] at digit
  change 48 ≤ c.toNat ∧ c.toNat ≤ 57 at digit
  refine ⟨?_,?_⟩
  · simp only [isSymbol,Bool.or_eq_true,Bool.and_eq_true,decide_eq_true_eq]
    omega
  · rintro rfl
    exact absurd digit.1 (by decide)

theorem numbered_injective {name other : String} {i j : Nat}
    (same : lower s!"{name}#{i}" = lower s!"{other}#{j}") : i = j := by
  have tail (front : List Char) (n : Nat) : ∃ lowered,
      lowerFrom [] (front ++ '#' :: Nat.toDigits 10 n) = lowered ++ '#' :: Nat.toDigits 10 n := by
    obtain ⟨lowered,parts⟩ := exists_lowered_append [] front ('#' :: Nat.toDigits 10 n)
    refine ⟨lowered,?_⟩
    rw [parts,lowerFrom_symbols]
    intro c member
    rcases List.mem_cons.mp member with rfl | digit
    · decide
    · exact (isSymbol_of_mem_digits digit).1
  have spelt (name : String) (n : Nat) : (s!"{name}#{n}").toList = name.toList ++ '#' :: Nat.toDigits 10 n := by
    change ((name ++ "#") ++ toString n).toList = _
    simp only [String.toList_append,Nat.toString_eq_ofList_toDigits,List.append_assoc,String.toList_ofList]
    rfl
  rw [lower,lower,String.ofList_inj,spelt,spelt] at same
  obtain ⟨first,one⟩ := tail name.toList i
  obtain ⟨second,two⟩ := tail other.toList j
  rw [one,two] at same
  have reversed := congrArg List.reverse same
  simp only [List.reverse_append,List.reverse_cons,List.append_assoc,List.singleton_append] at reversed
  have clean (n : Nat) (rest : List Char) :
      ((Nat.toDigits 10 n).reverse ++ '#' :: rest).takeWhile (· != '#') = (Nat.toDigits 10 n).reverse := by
    rw [List.takeWhile_append_of_pos,List.takeWhile_cons_of_neg (by decide),List.append_nil]
    intro c member
    exact bne_iff_ne.mpr (isSymbol_of_mem_digits (List.mem_reverse.mp member)).2
  have digits := congrArg (List.takeWhile (· != '#')) reversed
  rw [clean,clean,List.reverse_inj] at digits
  have value := congrArg (fun digits => Nat.ofDigitChars 10 digits 0) digits
  simpa using value

end Text

theorem infix_dropWhile {a : Char} {more chars : List Char} {blank : Char → Bool} (solid : blank a = false)
    (inside : a :: more <:+: chars) : a :: more <:+: chars.dropWhile blank := by
  induction chars with
  | nil => exact inside
  | cons c rest ih =>
    cases blankness : blank c with
    | false => rwa [List.dropWhile_cons_of_neg (by simp [blankness])]
    | true =>
      rw [List.dropWhile_cons_of_pos blankness]
      rcases List.infix_cons_iff.mp inside with first | later
      · obtain ⟨rfl,_⟩ := List.cons_prefix_cons.mp first
        rw [solid] at blankness
        contradiction
      · exact ih later

namespace Markup

theorem marker_pair : ∀ marker ∈ templateMarkers, ∃ a b, marker = [a,b] ∧ isSymbol a = true ∧
    isSymbol b = true ∧ isBlank a = false ∧ isBlank b = false := by
  have pairs : ∀ marker ∈ templateMarkers, marker = [marker.headD ' ',marker.getLastD ' '] ∧
      isSymbol (marker.headD ' ') = true ∧ isSymbol (marker.getLastD ' ') = true ∧
      isBlank (marker.headD ' ') = false ∧ isBlank (marker.getLastD ' ') = false := by decide
  exact fun marker listed => ⟨_,_,pairs marker listed⟩

theorem isDynamic_lower (name : String) : isDynamic (lower name) = isDynamic name := by
  rw [Bool.eq_iff_iff,isDynamic,isDynamic,isTemplated_iff,isTemplated_iff,lower,String.toList_ofList]
  refine exists_congr fun marker => and_congr_right fun listed => ?_
  obtain ⟨a,b,rfl,first,second,_⟩ := marker_pair marker listed
  exact pair_infix_lowerFrom first second [] name.toList

theorem isDynamic_trim {value : String} (dynamic : isDynamic value = true) : isDynamic (trim value) = true := by
  rw [isDynamic,isTemplated_iff] at dynamic ⊢
  obtain ⟨marker,listed,inside⟩ := dynamic
  obtain ⟨a,b,rfl,_,_,first,second⟩ := marker_pair marker listed
  refine ⟨_,listed,?_⟩
  rw [trim,String.toList_ofList,trimEnd,trimStart]
  have front := infix_dropWhile first inside
  have back : [b,a] <:+: ((value.toList.dropWhile isBlank).reverse).dropWhile isBlank :=
    infix_dropWhile second (List.reverse_infix.mpr front)
  exact List.reverse_infix.mpr back

theorem isDynamic_append {value : String} (more : String) (dynamic : isDynamic value = true) :
    isDynamic (value ++ more) = true := by
  rw [isDynamic,isTemplated_iff] at dynamic ⊢
  obtain ⟨marker,listed,inside⟩ := dynamic
  refine ⟨marker,listed,?_⟩
  rw [String.toList_append]
  exact inside.trans (List.prefix_append _ _).isInfix

end Markup

/-- A violation is reported at a place, or one of its labels stands there. -/
def Violation.Touches (violation : Violation) (place : Location) : Prop :=
  violation.location = place ∨ ∃ label ∈ violation.labels, label.location = place

namespace Rules.LandmarkUniqueness

/-- What names an element: its label, or the list of the elements that label it if there is no label or
only a blank one. -/
def label? (element : Element) : Option String :=
  ((element.value? "aria-label").filter fun label => !blankString label).or
    (element.value? "aria-labelledby")

/-- Whether an element takes its name from a list of labels that a template makes. -/
def isListed (element : Element) : Bool :=
  ((element.value? "aria-label").filter fun label => !blankString label).isNone &&
    isDynamicValue (element.value? "aria-labelledby")

def templated (doc : Document) : List Nat :=
  doc.indicesWhere fun element => element.hasRole "navigation" && isDynamicValue (label? element)

variable {head : RuleHead} {doc : Document}

theorem accessibleName?_listed (doc : Document) {element : Element} (listed : isListed element = true) (i : Nat) :
    ∃ ids : String, accessibleName? doc element i = some s!"{ids}#{i}" := by
  obtain ⟨unlabelled,made⟩ := Bool.and_eq_true_iff.mp listed
  cases given : element.value? "aria-labelledby" with
  | none =>
    rw [given] at made
    contradiction
  | some ids =>
    rw [given] at made
    have dynamic : isDynamic ids = true := made
    refine ⟨ids,?_⟩
    rw [accessibleName?,Option.isNone_iff_eq_none.mp unlabelled]
    simp [given,dynamic]

theorem accessibleName?_templated (doc : Document) {element : Element}
    (made : isDynamicValue (label? element) = true) (i : Nat) :
    ∃ name, accessibleName? doc element i = some name ∧ isDynamic name = true := by
  unfold label? at made
  unfold accessibleName?
  cases labelled : (element.value? "aria-label").filter fun label => !blankString label with
  | some label =>
    rw [labelled] at made
    exact ⟨trim label,rfl,isDynamic_trim made⟩
  | none =>
    rw [labelled,Option.none_or] at made
    cases given : element.value? "aria-labelledby" with
    | none =>
      rw [given] at made
      contradiction
    | some ids =>
      rw [given] at made
      have dynamic : isDynamic ids = true := made
      refine ⟨s!"{ids}#{i}",by simp [dynamic],?_⟩
      exact isDynamic_append _ (isDynamic_append _ dynamic)

theorem mem_namedNavigations {i : Nat} {name? : Option String} :
    (i,name?) ∈ namedNavigations doc ↔ ∃ element, doc.elements[i]? = some element ∧
      element.hasRole "navigation" = true ∧ accessibleName? doc element i = name? := by
  simp only [namedNavigations,List.mem_map,List.mem_filter,Prod.exists,Prod.mk.injEq]
  constructor
  · rintro ⟨element,j,⟨listed,role⟩,rfl,named⟩
    exact ⟨element,doc.mem_indexed element j listed,role,named⟩
  · rintro ⟨element,found,role,named⟩
    exact ⟨element,i,⟨List.mem_zipIdx_iff_getElem?.mpr found,role⟩,rfl,named⟩

theorem name_unique {i : Nat} {one two : Option String} (first : (i,one) ∈ namedNavigations doc)
    (second : (i,two) ∈ namedNavigations doc) : one = two := by
  obtain ⟨element,found,_,rfl⟩ := mem_namedNavigations.mp first
  obtain ⟨other,again,_,rfl⟩ := mem_namedNavigations.mp second
  rw [Option.some.inj (found.symm.trans again)]

theorem name_of_holdsAt {i : Nat} {name : String} (listed : doc.holdsAt isListed i = true)
    (named : (i,some name) ∈ namedNavigations doc) : ∃ ids : String, name = s!"{ids}#{i}" := by
  obtain ⟨element,found,_,given⟩ := mem_namedNavigations.mp named
  rw [Document.holdsAt,found] at listed
  obtain ⟨ids,numbered⟩ := accessibleName?_listed doc listed i
  exact ⟨ids,Option.some.inj (given.symm.trans numbered)⟩

/-- The violation that reports the name of a navigation as that of an earlier one. -/
def shares (head : RuleHead) (doc : Document) (name : String) (i first : Nat) : Violation :=
  head.violation (doc.openTagLocation i) s!"Navigation landmarks share the name \"{name}\"" []
    [⟨doc.openTagLocation first,"same name here"⟩]

theorem judge?_cases {navigations : List (Nat × Option String)} {i : Nat} {name? : Option String}
    {violation : Violation} (judged : judge? head doc navigations (i,name?) = some violation) :
    (name? = none ∧ violation.location = doc.openTagLocation i ∧ violation.labels = []) ∨
    ∃ name first firstName, name? = some name ∧ (first,some firstName) ∈ navigations ∧ first ≠ i ∧
      lower firstName = lower name ∧ violation = shares head doc name i first := by
  unfold judge? at judged
  dsimp only at judged
  split at judged
  next =>
    obtain rfl := Option.some.inj judged
    exact Or.inl ⟨rfl,rfl,rfl⟩
  next name =>
    split at judged
    next first firstName? found =>
      split_ifs at judged with same
      obtain rfl := Option.some.inj judged
      have alike := List.find?_some found
      obtain ⟨firstName,rfl,lowered⟩ := Option.map_eq_some_iff.mp (beq_iff_eq.mp alike)
      exact Or.inr ⟨name,first,firstName,rfl,List.mem_of_find?_eq_some found,same,lowered,rfl⟩
    next => contradiction

theorem exists_shares (head : RuleHead) (doc : Document) {navigations : List (Nat × Option String)}
    {i other : Nat} {name otherName : String} (named : (i,some name) ∈ navigations) (apart : other ≠ i)
    (same : lower otherName = lower name) :
    ∃ first, (first ≠ i ∧ judge? head doc navigations (i,some name) = some (shares head doc name i first)) ∨
      judge? head doc navigations (other,some otherName) = some (shares head doc otherName other i) := by
  have exists_first : (navigations.find? fun entry => entry.2.map lower == some (lower name)).isSome = true := by
    rw [List.find?_isSome]
    exact ⟨(i,some name),named,beq_self_eq_true _⟩
  obtain ⟨⟨first,firstName?⟩,found⟩ := Option.isSome_iff_exists.mp exists_first
  refine ⟨first,?_⟩
  by_cases here : first = i
  · subst here
    refine Or.inr ?_
    rw [judge?,same,found]
    exact if_neg (Ne.symm apart)
  · refine Or.inl ⟨here,?_⟩
    rw [judge?,found]
    exact if_neg here

theorem lt_of_named {i : Nat} {name? : Option String} (named : (i,name?) ∈ namedNavigations doc) :
    i < doc.elements.length := by
  obtain ⟨element,found,_⟩ := mem_namedNavigations.mp named
  exact (List.getElem?_eq_some_iff.mp found).1

theorem mem_checkNavigation {violation : Violation} :
    violation ∈ checkNavigation head doc ↔ 2 ≤ (namedNavigations doc).length ∧
      ∃ navigation ∈ namedNavigations doc, judge? head doc (namedNavigations doc) navigation = some violation := by
  unfold checkNavigation
  dsimp only
  split_ifs with few
  · exact ⟨fun absent => absurd absent List.not_mem_nil,fun several => absurd several.1 (Nat.not_le.mpr few)⟩
  · simp only [List.mem_filterMap,Nat.not_lt.mp few,true_and]

theorem two_le_length {α : Type} {list : List α} {a b : α} (first : a ∈ list) (second : b ∈ list)
    (apart : a ≠ b) : 2 ≤ list.length := by
  match list, first, second with
  | [c], first, second =>
    exact absurd ((List.mem_singleton.mp first).trans (List.mem_singleton.mp second).symm) apart
  | _ :: _ :: _, _, _ => simp

theorem shares_of_touches {source : List Char} {filter : Filter} {i : Nat} {name : String}
    (named : (i,some name) ∈ namedNavigations (Document.read source filter)) {violation : Violation}
    (found : violation ∈ check head (Document.read source filter))
    (touches : violation.Touches ((Document.read source filter).openTagLocation i)) :
    ∃ j reported first firstName, (j,some reported) ∈ namedNavigations (Document.read source filter) ∧
      (first,some firstName) ∈ namedNavigations (Document.read source filter) ∧ first ≠ j ∧
      lower firstName = lower reported ∧
      violation = shares head (Document.read source filter) reported j first ∧ (j = i ∨ first = i) := by
  have inside := lt_of_named named
  obtain ⟨element,here,role,_⟩ := mem_namedNavigations.mp named
  rcases List.mem_append.mp found with main | navigation
  · -- A main landmark is no navigation, and no label of a report on one stands at a navigation.
    have apart : ∀ j ∈ (Document.read source filter).indicesWhere
        fun element => element.hasRole "main" && !element.isHidden,
        (Document.read source filter).openTagLocation j ≠ (Document.read source filter).openTagLocation i := by
      intro j member same
      obtain rfl := Document.openTagLocation_injective (Document.lt_of_indicesWhere member) inside same
      obtain ⟨⟨other,_⟩,kept,rfl⟩ := List.mem_map.mp member
      obtain ⟨listed,visible⟩ := List.mem_filter.mp kept
      obtain rfl := Option.some.inj ((Document.mem_indexed _ other _ listed).symm.trans here)
      have mainRole := beq_iff_eq.mp (Bool.and_eq_true_iff.mp visible).1
      rw [beq_iff_eq.mp role] at mainRole
      exact absurd mainRole (by decide)
    unfold checkMain reportMains at main
    split at main
    next => contradiction
    next first others listed =>
      obtain ⟨other,member,rfl⟩ := List.mem_map.mp main
      rcases touches with place | ⟨label,labels,place⟩
      · exact absurd place (apart other (by rw [listed]; exact List.mem_cons_of_mem _ member))
      · obtain rfl := List.mem_singleton.mp labels
        exact absurd place (apart first (by rw [listed]; exact List.mem_cons_self))
  · obtain ⟨_,⟨j,reported?⟩,member,judged⟩ := mem_checkNavigation.mp navigation
    have within := lt_of_named member
    rcases judge?_cases judged with ⟨rfl,place,labels⟩ | ⟨reported,first,firstName,rfl,there,apart,same,rfl⟩
    · rcases touches with here | ⟨label,held,_⟩
      · obtain rfl := Document.openTagLocation_injective within inside (place.symm.trans here)
        exact absurd (name_unique member named) (by simp)
      · rw [labels] at held
        contradiction
    · refine ⟨j,reported,first,firstName,member,there,apart,same,rfl,?_⟩
      rcases touches with here | ⟨label,labels,here⟩
      · exact Or.inl (Document.openTagLocation_injective within inside here)
      · obtain rfl := List.mem_singleton.mp labels
        exact Or.inr (Document.openTagLocation_injective (lt_of_named there) inside here)

/-- A label that a template makes names its navigation. The navigation is reported at all, or named in a
report, only because another one bears the same name. The name of the other one holds a template expression
too, and the names of the two are not both made from lists of labels. -/
theorem templated_name_shared_iff (head : RuleHead) (source : List Char) (filter : Filter) (i : Nat)
    (made : i ∈ templated (Document.read source filter)) :
    let doc := Document.read source filter
    ∃ found names, run head doc = some found ∧ (doc.withRole "navigation").mapM (fetchNamed doc) = some names ∧
    (∀ violation ∈ found, violation.Touches (doc.openTagLocation i) →
      ∃ name : String, violation.message = s!"Navigation landmarks share the name \"{name}\"") ∧
    ((∃ violation ∈ found, violation.Touches (doc.openTagLocation i)) ↔
      ∃ name other otherName, (i,some name) ∈ names ∧ (other,some otherName) ∈ names ∧ other ≠ i ∧
        lower otherName = lower name ∧ isDynamic otherName = true ∧
        ¬ (doc.holdsAt isListed i = true ∧ doc.holdsAt isListed other = true)) := by
  intro doc
  have linked : doc.Linked := Document.read_linked source filter
  obtain ⟨⟨element,place⟩,kept,rfl⟩ := List.mem_map.mp made
  obtain ⟨indexed,labelled⟩ := List.mem_filter.mp kept
  obtain ⟨role,unsettled⟩ := Bool.and_eq_true_iff.mp labelled
  have found : doc.elements[place]? = some element := doc.mem_indexed element place indexed
  obtain ⟨name,named,dynamic⟩ := accessibleName?_templated doc unsettled place
  have here : (place,some name) ∈ namedNavigations doc := mem_namedNavigations.mpr ⟨element,found,role,named⟩
  refine ⟨_,_,run_eq linked head,fetchNamed_eq linked,fun violation reported touches => ?_,⟨?_,?_⟩⟩
  · obtain ⟨_,shared,_,_,_,_,_,_,rfl,_⟩ := shares_of_touches here reported touches
    exact ⟨shared,rfl⟩
  · rintro ⟨violation,reported,touches⟩
    have pair : ∃ other otherName, (other,some otherName) ∈ namedNavigations doc ∧ other ≠ place ∧
        lower otherName = lower name := by
      obtain ⟨j,reported,first,firstName,listed,there,apart,same,_,one⟩ := shares_of_touches here reported touches
      rcases one with rfl | rfl
      · obtain rfl := Option.some.inj (name_unique listed here)
        exact ⟨first,firstName,there,apart,same⟩
      · obtain rfl := Option.some.inj (name_unique there here)
        exact ⟨j,reported,listed,apart.symm,same.symm⟩
    obtain ⟨other,otherName,there,apart,same⟩ := pair
    refine ⟨name,other,otherName,here,there,apart,same,?_,fun ⟨listed,alsoListed⟩ => ?_⟩
    · rw [← isDynamic_lower,same,isDynamic_lower,dynamic]
    · obtain ⟨_,numbered⟩ := name_of_holdsAt listed here
      obtain ⟨_,otherNumbered⟩ := name_of_holdsAt alsoListed there
      rw [numbered,otherNumbered] at same
      exact apart (numbered_injective same)
  · rintro ⟨_,other,otherName,again,there,apart,same,_⟩
    obtain rfl := Option.some.inj (name_unique again here)
    have several := two_le_length there here fun equal => apart (congrArg Prod.fst equal)
    obtain ⟨first,⟨_,judged⟩ | judged⟩ := exists_shares head doc here apart same
    · refine ⟨_,List.mem_append_right _ (mem_checkNavigation.mpr ⟨several,_,here,judged⟩),?_⟩
      exact Or.inl rfl
    · refine ⟨_,List.mem_append_right _ (mem_checkNavigation.mpr ⟨several,_,there,judged⟩),?_⟩
      exact Or.inr ⟨_,List.mem_cons_self,rfl⟩

theorem templated_name_shared_twice :
    let doc := Document.read "<nav aria-label=\"$\x7ba\x7d\"></nav><nav aria-label=\"$\x7ba\x7d\"></nav>".toList
    1 ∈ templated doc ∧ ∃ found, run (rule .warning).toRuleHead doc = some found ∧ ∃ violation ∈ found,
      violation.Touches (doc.openTagLocation 1) ∧
      ∃ name : String, violation.message = s!"Navigation landmarks share the name \"{name}\"" := by
  intro doc
  have made : 1 ∈ templated doc := by decide +kernel
  have labelled : doc.holdsAt isListed 1 = false := by decide +kernel
  have named : (doc.withRole "navigation").mapM (fetchNamed doc) =
      some [(0,some "$\x7ba\x7d"),(1,some "$\x7ba\x7d")] := by decide +kernel
  obtain ⟨found,names,answer,given,meaning,reported⟩ :=
    templated_name_shared_iff (rule .warning).toRuleHead _ Filter.keep 1 made
  obtain rfl := Option.some.inj (named.symm.trans given)
  obtain ⟨violation,member,touches⟩ := reported.mpr
    ⟨"$\x7ba\x7d",0,"$\x7ba\x7d",by simp,by simp,by decide,rfl,by decide,fun both => absurd (labelled.symm.trans both.1) (by decide)⟩
  exact ⟨made,found,answer,violation,member,touches,meaning violation member touches⟩

end Rules.LandmarkUniqueness

end AccessibleMarkup
