import AccessibleMarkup.Linter.Allowance
import Mathlib.Data.List.Infix

/-! Allow directives. What a comment says is read back from its line, whatever stands around the comment, and a
document permits what the directives of a line and of the line before it name. The main result is
`allow_comments_permit`. -/
namespace AccessibleMarkup

namespace Text

theorem breakOn?_of_first {needle before rest : List Char}
    (first : ∀ front back, before = front ++ back → back ≠ [] → ¬ needle <+: back ++ (needle ++ rest)) :
    breakOn? needle (before ++ (needle ++ rest)) = some (before,rest) := by
  induction before with
  | nil =>
    rw [List.nil_append]
    cases whole : needle ++ rest with
    | nil =>
      obtain ⟨rfl,rfl⟩ := List.append_eq_nil_iff.mp whole
      rfl
    | cons c more =>
      rw [breakOn?,← whole,if_pos (List.isPrefixOf_iff_prefix.mpr (List.prefix_append _ _)),List.drop_left]
  | cons c before ih =>
    have here := first [] (c :: before) rfl (by simp)
    rw [List.cons_append] at here ⊢
    rw [breakOn?,if_neg fun starts => here (List.isPrefixOf_iff_prefix.mp starts),
      ih fun front back parts => first (c :: front) back (by rw [parts,List.cons_append])]
    rfl

theorem breakOn?_char {c : Char} {before : List Char} (absent : c ∉ before) (rest : List Char) :
    breakOn? [c] (before ++ c :: rest) = some (before,rest) := by
  refine breakOn?_of_first fun front back parts nonempty starts => ?_
  obtain ⟨d,more,rfl⟩ := List.exists_cons_of_ne_nil nonempty
  obtain ⟨rfl,_⟩ := List.cons_prefix_cons.mp starts
  exact absent (by rw [parts]; simp)

theorem prefix_of_prefix_append {needle front rest : List Char} {c : Char} (starts : needle <+: front ++ c :: rest)
    (absent : c ∉ needle) : needle <+: front := by
  rcases List.prefix_or_prefix_of_prefix starts (List.prefix_append front (c :: rest)) with inside | ⟨more,rfl⟩
  · exact inside
  · cases more with
    | nil => rw [List.append_nil]
    | cons d more =>
      obtain ⟨rfl,_⟩ := List.cons_prefix_cons.mp ((List.prefix_append_right_inj front).mp starts)
      exact absurd (by simp) absent

theorem infix_of_infix_append {needle front back : List Char} {c : Char} (found : needle ++ [c] <:+: front ++ back)
    (absent : c ∉ back) : needle ++ [c] <:+: front := by
  obtain ⟨left,right,parts⟩ := found
  rcases List.append_eq_append_iff.mp parts with ⟨more,same,_⟩ | ⟨more,same,tail⟩
  · exact ⟨left,more,same.symm⟩
  · rcases List.eq_nil_or_concat more with rfl | ⟨inner,d,rfl⟩
    · exact ⟨left,[],by simpa using same⟩
    · rw [List.concat_eq_append,← List.append_assoc,← List.append_assoc] at same
      obtain ⟨_,last⟩ := List.append_inj' same rfl
      obtain ⟨rfl,_⟩ := List.cons.inj last
      exact absurd (by rw [tail]; simp) absent

theorem trimStart_cons_blank {c : Char} (blank : isBlank c = true) (text : List Char) :
    trimStart (c :: text) = trimStart text := by
  rw [trimStart,trimStart,List.dropWhile_cons_of_pos blank]

theorem trimStart_cons_solid {c : Char} (solid : isBlank c = false) (text : List Char) :
    trimStart (c :: text) = c :: text := by
  rw [trimStart,List.dropWhile_cons_of_neg (by simp [solid])]

theorem trimEnd_concat_blank {c : Char} (blank : isBlank c = true) (text : List Char) :
    trimEnd (text ++ [c]) = trimEnd text := by
  rw [trimEnd,trimEnd,List.reverse_append,List.reverse_singleton,List.singleton_append,
    List.dropWhile_cons_of_pos blank]

theorem trimEnd_concat_solid {c : Char} (solid : isBlank c = false) (text : List Char) :
    trimEnd (text ++ [c]) = text ++ [c] := by
  rw [trimEnd,List.reverse_append,List.reverse_singleton,List.singleton_append,
    List.dropWhile_cons_of_neg (by simp [solid]),List.reverse_cons,List.reverse_reverse]

/-- A line of a text with its number, counted from 1, and without its line end. -/
inductive LineAt : List Char → Nat → List Char → Prop
  | ended (line rest : List Char) (whole : '\n' ∉ line) : LineAt (line ++ '\n' :: rest) 1 (dropCarriageReturn line)
  | last (line : List Char) (whole : '\n' ∉ line) (nonempty : line ≠ []) : LineAt line 1 line
  | later (line rest found : List Char) (number : Nat) (whole : '\n' ∉ line) (more : LineAt rest number found) :
      LineAt (line ++ '\n' :: rest) (number + 1) found

theorem lines_append {line : List Char} (whole : '\n' ∉ line) (rest : List Char) :
    lines (line ++ '\n' :: rest) = dropCarriageReturn line :: lines rest := by
  rw [lines,List.splitOn_append_cons_self_of_not_mem whole,List.reverse_cons,lines]
  cases parts : (rest.splitOn '\n').reverse with
  | nil => exact absurd (List.reverse_eq_nil_iff.mp parts) (List.splitOn_ne_nil _ _)
  | cons last ended => simp

theorem lines_last {text : List Char} (whole : '\n' ∉ text) (i : Nat) (line : List Char) :
    (lines text)[i]? = some line ↔ i = 0 ∧ text ≠ [] ∧ text = line := by
  rw [lines,List.splitOn_eq_singleton whole]
  cases text <;> cases i <;> simp

theorem lineAt_iff (text : List Char) (number : Nat) (line : List Char) :
    LineAt text number line ↔ ∃ i, number = i + 1 ∧ (lines text)[i]? = some line := by
  constructor
  · intro found
    induction found with
    | ended line rest whole => exact ⟨0,rfl,by rw [lines_append whole]; rfl⟩
    | last line whole nonempty => exact ⟨0,rfl,(lines_last whole 0 line).mpr ⟨rfl,nonempty,rfl⟩⟩
    | later line rest found number whole more ih =>
      obtain ⟨i,rfl,found⟩ := ih
      exact ⟨i + 1,rfl,by rw [lines_append whole,List.getElem?_cons_succ,found]⟩
  · rintro ⟨i,rfl,found⟩
    induction i generalizing text with
    | zero =>
      by_cases broken : '\n' ∈ text
      · obtain ⟨first,rest,rfl,whole⟩ := List.eq_append_cons_of_mem broken
        rw [lines_append whole,List.getElem?_cons_zero] at found
        obtain rfl := Option.some.inj found
        exact .ended first rest whole
      · obtain ⟨_,nonempty,rfl⟩ := (lines_last broken 0 line).mp found
        exact .last text broken nonempty
    | succ i ih =>
      by_cases broken : '\n' ∈ text
      · obtain ⟨first,rest,rfl,whole⟩ := List.eq_append_cons_of_mem broken
        rw [lines_append whole,List.getElem?_cons_succ] at found
        exact .later first rest line (i + 1) whole (ih rest found)
      · obtain ⟨impossible,_⟩ := (lines_last broken (i + 1) line).mp found
        contradiction

end Text
/-- A comment that allows rules to be broken, with the text of its line around it. -/
structure AllowComment where
  before : List Char
  opening : String
  names : List String
  reason : Option String
  after : List Char
  unmarked : ¬ "aria-lint:".toList <:+: before
  style : opening ∈ ["<!--","\x7b#","<%--","\x7b\x7b!--","\x7b\x7b!"]
  nonempty : names ≠ []
  listed : ∀ name ∈ names, name ≠ "" ∧ Text.trim name = name ∧ ',' ∉ name.toList ∧ ')' ∉ name.toList
  given : ∀ text, reason = some text → text ≠ "" ∧ Text.trim text = text ∧ '"' ∉ text.toList
  /-- Without a reason of its own, the comment is not followed by one either. -/
  unreasoned : reason = none → ¬ "reason=".toList <+: Text.trimStart after

namespace AllowComment

def writtenReason (comment : AllowComment) : List Char :=
  match comment.reason with
  | none => []
  | some text => " reason=\"".toList ++ (text.toList ++ ['"'])

def line (comment : AllowComment) : List Char :=
  comment.before ++ (comment.opening.toList ++ (" aria-lint: allow(".toList ++
    ((", ".intercalate comment.names).toList ++ ([')'] ++ (comment.writtenReason ++ comment.after)))))

end AllowComment

namespace AllowDirective

theorem after?_append (expected : String) (rest : List Char) :
    after? expected (expected.toList ++ rest) = some rest := by
  rw [after?,if_pos (List.isPrefixOf_iff_prefix.mpr (List.prefix_append _ _)),List.drop_left]

theorem after?_eq_none {expected : String} {text : List Char} (other : ¬ expected.toList <+: text) :
    after? expected text = none :=
  if_neg fun starts => other (List.isPrefixOf_iff_prefix.mp starts)

theorem commentOpening_ends : ∀ opening ∈ commentOpenings, ':' ∉ opening.toList ∧
    opening.toList.getLast?.any (!Text.isBlank ·) = true := by
  decide

theorem opensComment_append {opening : String} (style : opening ∈ commentOpenings) (before : List Char) :
    opensComment (before ++ (opening.toList ++ [' '])) = true := by
  obtain ⟨c,last,solid⟩ := (Option.any_eq_true _ _).mp (commentOpening_ends opening style).2
  obtain ⟨front,same⟩ := List.getLast?_eq_some_iff.mp last
  refine List.any_eq_true.mpr ⟨opening,style,List.isSuffixOf_iff_suffix.mpr ?_⟩
  rw [← List.append_assoc,Text.trimEnd_concat_blank (by decide),same,← List.append_assoc,
    Text.trimEnd_concat_solid (by simpa using solid),List.append_assoc]
  exact List.suffix_append _ _

theorem not_mem_intercalate {c : Char} {separator : List Char} {pieces : List (List Char)} (outside : c ∉ separator)
    (absent : ∀ piece ∈ pieces, c ∉ piece) : c ∉ separator.intercalate pieces := by
  induction pieces with
  | nil => simp [List.intercalate]
  | cons piece others ih =>
    have rest := ih fun other member => absent other (List.mem_cons_of_mem _ member)
    cases others with
    | nil => simpa [List.intercalate] using absent piece
    | cons next others =>
      rw [List.intercalate_cons_cons,List.mem_append,List.mem_append]
      rintro ((here | between) | later)
      · exact absent piece List.mem_cons_self here
      · exact outside between
      · exact rest later

theorem intercalate_comma_blank (name : List Char) (others : List (List Char)) :
    [',',' '].intercalate (name :: others) = [','].intercalate (name :: others.map (' ' :: ·)) := by
  induction others generalizing name with
  | nil => rfl
  | cons next others ih =>
    rw [List.map_cons,List.intercalate_cons_cons,List.intercalate_cons_cons,ih next]
    cases others <;> simp [List.intercalate]

theorem readNames_intercalate {names : List String} (nonempty : names ≠ [])
    (listed : ∀ name ∈ names, name ≠ "" ∧ Text.trim name = name ∧ ',' ∉ name.toList) :
    readNames (", ".intercalate names).toList = names.eraseDups := by
  obtain ⟨name,others,rfl⟩ := List.exists_cons_of_ne_nil nonempty
  have whole : ∀ piece ∈ name.toList :: (others.map String.toList).map (' ' :: ·), ',' ∉ piece := by
    rintro piece (_ | ⟨_,later⟩)
    · exact (listed name List.mem_cons_self).2.2
    · obtain ⟨_,known,rfl⟩ := List.mem_map.mp later
      obtain ⟨other,member,rfl⟩ := List.mem_map.mp known
      simpa using (listed other (List.mem_cons_of_mem _ member)).2.2
  have trimmed : ((name.toList :: (others.map String.toList).map (' ' :: ·)).map fun piece =>
      String.ofList (Text.trimEnd (Text.trimStart piece))) = name :: others := by
    rw [List.map_cons,List.map_map,List.map_map]
    refine congrArg₂ List.cons (listed name List.mem_cons_self).2.1 ?_
    refine (List.map_congr_left fun other member => ?_).trans (List.map_id others)
    rw [Function.comp_apply,Function.comp_apply,Text.trimStart_cons_blank (by decide)]
    exact (listed other (List.mem_cons_of_mem _ member)).2.1
  rw [readNames,String.toList_intercalate,List.map_cons]
  change (((List.splitOn ',' ([',',' '].intercalate _)).map _).filter _).eraseDups = _
  rw [intercalate_comma_blank,List.splitOn_intercalate ',' whole (by simp),trimmed,
    List.filter_eq_self.mpr fun other member => by simpa using (listed other member).1]

theorem readReason?_given {text : String} (nonempty : text ≠ "") (trimmed : Text.trim text = text)
    (whole : '"' ∉ text.toList) (after : List Char) :
    readReason? (" reason=\"".toList ++ (text.toList ++ ['"']) ++ after) = some text := by
  have start : Text.trimStart (" reason=\"".toList ++ (text.toList ++ ['"']) ++ after) =
      "reason=".toList ++ '"' :: (text.toList ++ '"' :: after) := by
    rw [List.append_assoc,List.append_assoc]
    exact Text.trimStart_cons_blank (by decide) _
  have inside : quoted? ('"' :: (text.toList ++ '"' :: after)) = some text := by
    have quote : after? "\"" ('"' :: (text.toList ++ '"' :: after)) = some (text.toList ++ '"' :: after) :=
      after?_append "\"" _
    rw [quoted?,Text.trimStart_cons_solid (by decide),quote,Option.bind_eq_bind,Option.bind_some,
      Text.breakOn?_char whole]
    exact congrArg some trimmed
  rw [readReason?,start,after?_append,Option.bind_some,inside,Option.filter_some,if_pos (by simpa using nonempty)]

theorem readReason?_none {after : List Char} (other : ¬ "reason=".toList <+: Text.trimStart after) :
    readReason? after = none := by
  rw [readReason?,after?_eq_none other]
  rfl

end AllowDirective

namespace AllowComment

variable (comment : AllowComment)

theorem readReason?_eq : AllowDirective.readReason? (comment.writtenReason ++ comment.after) = comment.reason := by
  rw [writtenReason]
  cases given : comment.reason with
  | none => exact AllowDirective.readReason?_none (comment.unreasoned given)
  | some text =>
    obtain ⟨nonempty,trimmed,whole⟩ := comment.given text given
    exact AllowDirective.readReason?_given nonempty trimmed whole comment.after

theorem breakOn?_marker (rest : List Char) :
    Text.breakOn? AllowDirective.marker.toList (comment.before ++ (comment.opening.toList ++ [' ']) ++
      (AllowDirective.marker.toList ++ rest)) =
      some (comment.before ++ (comment.opening.toList ++ [' ']),rest) := by
  refine Text.breakOn?_of_first fun front back parts nonempty starts => comment.unmarked ?_
  obtain ⟨inner,last,rfl⟩ := List.eq_nil_or_concat back |>.resolve_left nonempty
  rw [List.concat_eq_append,← List.append_assoc,← List.append_assoc] at parts
  obtain ⟨same,space⟩ := List.append_inj' parts rfl
  obtain ⟨rfl,_⟩ := List.cons.inj space
  rw [List.concat_eq_append,List.append_assoc] at starts
  have inside := Text.prefix_of_prefix_append starts (by decide)
  have found : "aria-lint".toList ++ [':'] <:+: comment.before ++ comment.opening.toList := by
    rw [same]
    exact inside.isInfix.trans (List.suffix_append front inner).isInfix
  exact Text.infix_of_infix_append found (AllowDirective.commentOpening_ends _ comment.style).1

theorem read?_line :
    AllowDirective.read? comment.line = some ⟨comment.names.eraseDups,comment.reason⟩ := by
  have parts : comment.line = comment.before ++ (comment.opening.toList ++ [' ']) ++
      (AllowDirective.marker.toList ++ (' ' :: ("allow(".toList ++ ((", ".intercalate comment.names).toList ++
        ')' :: (comment.writtenReason ++ comment.after))))) := by
    simp [line,AllowDirective.marker]
  have enclosed : ')' ∉ (", ".intercalate comment.names).toList := by
    rw [String.toList_intercalate]
    refine AllowDirective.not_mem_intercalate (by decide) fun piece member => ?_
    obtain ⟨name,known,rfl⟩ := List.mem_map.mp member
    exact (comment.listed name known).2.2.2
  have names := AllowDirective.readNames_intercalate comment.nonempty fun name member =>
    ⟨(comment.listed name member).1,(comment.listed name member).2.1,(comment.listed name member).2.2.1⟩
  have nonempty : comment.names.eraseDups.isEmpty = false := by
    obtain ⟨name,others,same⟩ := List.exists_cons_of_ne_nil comment.nonempty
    rw [same,List.eraseDups_cons]
    rfl
  have start (rest : List Char) : Text.trimStart (' ' :: ("allow(".toList ++ rest)) = "allow(".toList ++ rest :=
    Text.trimStart_cons_blank (by decide) _
  rw [AllowDirective.read?,parts,comment.breakOn?_marker,Option.bind_eq_bind,Option.bind_some]
  simp only [AllowDirective.opensComment_append comment.style,Bool.not_true,Bool.false_eq_true,if_false,start,
    AllowDirective.after?_append,Option.bind_eq_bind,Option.bind_some,Text.breakOn?_char enclosed,names,nonempty,
    comment.readReason?_eq]
  rfl

end AllowComment

/-- The directive that a line of a text holds, by the number of the line. -/
def DirectiveOn (text : List Char) (number : Nat) (directive : AllowDirective) : Prop :=
  ∃ line, Text.LineAt text number line ∧ AllowDirective.read? line = some directive

def AllowDirective.Names (directive : AllowDirective) (names : List String) : Prop :=
  "all" ∈ directive.rules ∨ ∃ name ∈ names, name ∈ directive.rules

theorem AllowDirective.covers_iff (directive : AllowDirective) (names : List String) :
    directive.covers names = true ↔ directive.Names names := by
  simp [covers,Names]

namespace AllowDirectives

theorem lookup_early (lines : List (List Char)) (first number : Nat) (early : number ≤ first) :
    ((lines.zipIdx first).filterMap fun (line,i) =>
      (AllowDirective.read? line).map fun directive => (i + 1,directive)).lookup number = none := by
  refine List.lookup_eq_none_iff.mpr fun entry member => ?_
  obtain ⟨⟨line,i⟩,indexed,made⟩ := List.mem_filterMap.mp member
  obtain ⟨_,_,rfl⟩ := Option.map_eq_some_iff.mp made
  have later : first ≤ i := List.le_snd_of_mem_zipIdx indexed
  exact bne_iff_ne.mpr (Nat.ne_of_lt (Nat.lt_succ_of_le (Nat.le_trans early later)))

theorem lookup_entry (lines : List (List Char)) (first i : Nat) :
    ((lines.zipIdx first).filterMap fun (line,i) =>
      (AllowDirective.read? line).map fun directive => (i + 1,directive)).lookup (first + i + 1) =
      lines[i]?.bind AllowDirective.read? := by
  induction lines generalizing first i with
  | nil => rfl
  | cons line lines ih =>
    rw [List.zipIdx_cons,List.filterMap_cons]
    cases i with
    | zero =>
      cases read : AllowDirective.read? line with
      | none => simpa [read] using lookup_early lines (first + 1) (first + 1) (Nat.le_refl _)
      | some directive => simp [read]
    | succ i =>
      have rest := ih (first + 1) i
      rw [show first + 1 + i = first + (i + 1) by omega] at rest
      have other : (first + (i + 1) + 1 == first + 1) = false := by simp
      cases read : AllowDirective.read? line with
      | none => simpa [read] using rest
      | some directive => simpa [read,List.lookup_cons,other] using rest

theorem lookup_read_iff (text : List Char) (number : Nat) (directive : AllowDirective) :
    (read text).byLine.lookup number = some directive ↔ DirectiveOn text number directive := by
  simp only [DirectiveOn,Text.lineAt_iff]
  cases number with
  | zero =>
    rw [read,lookup_early _ 0 0 (Nat.le_refl _)]
    simp
  | succ i =>
    have entry := lookup_entry (Text.lines text) 0 i
    rw [Nat.zero_add] at entry
    rw [read,entry,Option.bind_eq_some_iff]
    simp

theorem permitting?_eq_some_iff (text : List Char) (line : Nat) (names : List String) (directive : AllowDirective) :
    (read text).permitting? line names = some directive ↔
      directive.Names names ∧ (DirectiveOn text line directive ∨
        (∀ own, DirectiveOn text line own → ¬ own.Names names) ∧ DirectiveOn text (line - 1) directive) := by
  have single (found : Option AllowDirective) :
      found.toList.find? (·.covers names) = found.filter (·.covers names) := by
    cases found with
    | none => rfl
    | some directive => rw [Option.toList_some,List.find?_singleton,Option.filter_some]
  have inTurn : (read text).permitting? line names =
      (((read text).byLine.lookup line).filter (·.covers names)).or
        (((read text).byLine.lookup (line - 1)).filter (·.covers names)) := by
    rw [permitting?,List.filterMap_eq_flatMap_toList,List.flatMap_cons,List.flatMap_singleton,List.find?_append,
      single,single]
  simp only [inTurn,← lookup_read_iff,← AllowDirective.covers_iff,Option.or_eq_some_iff,Option.filter_eq_some_iff,
    Option.filter_eq_none_iff]
  tauto

end AllowDirectives

/-- The line of a comment gives back its names and its reason. A line permits to break a rule when its own directive or
the one of the line before names the rule, and its own directive is asked first. -/
theorem allow_comments_permit (comment : AllowComment) (text : List Char) (line : Nat) (names : List String) :
    AllowDirective.read? comment.line = some ⟨comment.names.eraseDups,comment.reason⟩ ∧
    (((AllowDirectives.read text).permitting? line names).isSome = true ↔
      ∃ directive, (DirectiveOn text line directive ∨ DirectiveOn text (line - 1) directive) ∧
        directive.Names names) ∧
    ∀ directive, (AllowDirectives.read text).permitting? line names = some directive ↔
      directive.Names names ∧ (DirectiveOn text line directive ∨
        (∀ own, DirectiveOn text line own → ¬ own.Names names) ∧ DirectiveOn text (line - 1) directive) := by
  have permitting := AllowDirectives.permitting?_eq_some_iff text line names
  refine ⟨comment.read?_line,?_,permitting⟩
  rw [Option.isSome_iff_exists]
  constructor
  · rintro ⟨directive,found⟩
    obtain ⟨named,own | ⟨_,previous⟩⟩ := (permitting directive).mp found
    · exact ⟨directive,Or.inl own,named⟩
    · exact ⟨directive,Or.inr previous,named⟩
  · rintro ⟨directive,place,named⟩
    by_cases first : ∃ own, DirectiveOn text line own ∧ own.Names names
    · obtain ⟨own,here,covers⟩ := first
      exact ⟨own,(permitting own).mpr ⟨covers,Or.inl here⟩⟩
    · have others : ∀ own, DirectiveOn text line own → ¬ own.Names names :=
        fun own here covers => first ⟨own,here,covers⟩
      exact ⟨directive,(permitting directive).mpr ⟨named,place.imp_right fun previous => ⟨others,previous⟩⟩⟩

example : ∃ comment : AllowComment,
    comment.line = "<p> <%-- aria-lint: allow(AR002, all) reason=\"legacy\" --%>".toList :=
  ⟨⟨"<p> ".toList,"<%--",["AR002","all"],some "legacy"," --%>".toList,by decide,by decide,by decide,by decide,
    by rintro _ ⟨rfl⟩; decide,by decide⟩,by decide⟩

end AccessibleMarkup
