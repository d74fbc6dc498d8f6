import AccessibleMarkup.Proofs.AttributeSpelling
import AccessibleMarkup.Proofs.FixDemands
import AccessibleMarkup.Proofs.FixLocality
import AccessibleMarkup.Proofs.FixRounds
import AccessibleMarkup.Proofs.PlannedEdits
import AccessibleMarkup.Proofs.TagEditFrame

/-! What is left to mend where mending comes to rest. It rests when the first edit on offer has no effect,
and only one kind of fix has such edits: one that sets a value with a double quote in it, which is written
as an entity and so never read back as it was set. Such a fix keeps all later ones from being made. -/
namespace AccessibleMarkup

open Text Markup

namespace Fix

def setsQuote : Fix → Bool
  | setAttribute _ value => value.toList.contains '"'
  | _ => false

theorem quotedValue_of_not_mem (value : String) (plain : '"' ∉ value.toList) :
    quotedValue value = '"' :: (value.toList ++ ['"']) := by
  have kept (chars : List Char) (plain : '"' ∉ chars) :
      chars.flatMap (fun c => if c = '"' then "&quot;".toList else [c]) = chars := by
    induction chars with
    | nil => rfl
    | cons c rest ih =>
      obtain ⟨other,further⟩ := not_or.mp (fun either => plain (List.mem_cons.mpr either))
      rw [List.flatMap_cons,if_neg (Ne.symm other),ih further,List.singleton_append]
  rw [quotedValue,kept value.toList plain,List.cons_append]

theorem planOn_of_applied {fix : Fix} {source : List Char} {anchor : Nat} {filter : Filter} {edit : Edit}
    (planned : fix.plan source anchor filter = .ok (.applied edit)) :
    ∃ target, target.node ∈ outlineNodes (filter.apply source) ∧
      fix.planOn source target = .ok (.applied edit) := by
  unfold plan at planned
  dsimp only at planned
  split_ifs at planned
  split at planned
  next => contradiction
  next =>
    split at planned
    next => cases planned
    next target located => exact ⟨target,locate?_mem _ _ target located,planned⟩

end Fix

theorem Edit.size_of_apply_self {edit : Edit} {text : List Char} (same : edit.apply text = .ok text) :
    edit.range.stop - edit.range.start = byteLength edit.replacement := by
  have sizes := Edit.byteLength_apply same
  omega

namespace Markup.Node.PartsIn

variable {source before name inner body after : List Char} {node : Node}

theorem attribute_speltIn (written : node.PartsIn source before name inner body after)
    (attr : Attribute) (member : attr ∈ Fix.writtenAttributes source node) :
    attr.SpeltIn (Fix.nameStop node) inner := by
  rw [written.writtenAttributes_eq] at member
  exact readAttributesFrom_speltIn .tagName [] inner trivial attr member

theorem set_self (written : node.PartsIn source before name inner body after) (found : Attribute)
    (member : found ∈ Fix.writtenAttributes source node) (value : String) (plain : '"' ∉ value.toList)
    (same : Edit.apply ⟨found.range,Fix.writeWithValue found.name value⟩ source = .ok source) :
    found.value = value ∧ found.quote = .double := by
  obtain ⟨_,chars,⟨front,back,parts,start,stop⟩,spelling⟩ := written.attribute_speltIn found member
  have place := written.nameStop_eq
  have begins := written.start
  have whole : source = before ++ ('<' :: (name ++ front) ++ (chars ++ (back ++ body)) ++ after) := by
    rw [written.parts,parts]
    simp
  obtain ⟨made,_⟩ := Edit.apply_inside before ('<' :: (name ++ front)) chars (back ++ body) after
    _ ⟨found.range,Fix.writeWithValue found.name value⟩ (by simp; omega) stop rfl
  rw [← whole,same] at made
  have unchanged := Except.ok.inj made
  rw [whole,List.append_assoc before,List.append_right_inj,List.append_left_inj,List.append_right_inj,
    List.append_left_inj] at unchanged
  rw [Fix.writeWithValue,Fix.quotedValue_of_not_mem value plain] at unchanged
  obtain ⟨double,read⟩ := spelling.of_doubleQuoted unchanged
  exact ⟨String.toList_inj.mp read,double⟩

theorem rename_self (written : node.PartsIn source before name inner body after) (new : String)
    {changed : List Char} (rewrites : Fix.Rewrites node name inner body after (.rename new) changed)
    (unchanged : changed = '<' :: (name ++ (inner ++ body))) : sameIgnoringCase node.name new = true := by
  have same : new.toList = name := by
    cases rewrites with
    | «attribute» _ _ kind => cases kind
    | rename => exact List.append_cancel_right (List.cons.inj unchanged).2
    | renameBoth _ content old tail _ ends =>
      have lengths : byteLength old = byteLength name := by
        have lower := congrArg (fun label => byteLength label.toList) (ends.named.trans written.named.symm)
        simpa only [byteLength_asciiLower,String.toList_ofList] using lower
      have tails := (List.cons.inj unchanged).2
      have sizes := congrArg byteLength tails
      rw [ends.parts] at sizes
      simp only [byteLength_append,byteLength_cons] at sizes
      exact (append_inj_of_byteLength tails (by omega)).1
  rw [sameIgnoringCase,← written.named,← same,String.ofList_toList,asciiLower_asciiLower,beq_self_eq_true]

end Markup.Node.PartsIn

namespace Fix

theorem planOn_effective {fix : Fix} {source : List Char} {filter : Filter} {target : FixTarget}
    (member : target.node ∈ outlineNodes (filter.apply source)) {edit : Edit}
    (planned : fix.planOn source target = .ok (.applied edit)) (plain : fix.setsQuote = false) :
    edit.apply source ≠ .ok source := by
  intro same
  obtain ⟨outcome,made,local_⟩ := fix.planOn_localTo source filter target member
  obtain rfl := Except.ok.inj (made.symm.trans planned)
  obtain ⟨_,_,before,name,inner,body,after,changed,written,rewrites,applied⟩ := local_ edit rfl
  have unchanged : changed = '<' :: (name ++ (inner ++ body)) := by
    have texts := Except.ok.inj (applied.symm.trans same)
    rwa [written.parts,← List.append_assoc,List.append_left_inj,List.append_right_inj] at texts
  have size := Edit.size_of_apply_self same
  have insertion (offset : Nat) (c : Char) (chars : List Char) (given : edit = Edit.insertion offset (c :: chars)) :
      False := by
    have positive := Char.utf8Size_pos c
    subst given
    rw [Edit.insertion,byteLength_cons] at size
    dsimp only at size
    omega
  cases planOn_eq_applied_iff.mp planned with
  | add | set => exact insertion _ _ _ rfl
  | replace attr value known other =>
    exact other (written.set_self _ (List.mem_of_find?_eq_some known) value (by simpa [setsQuote] using plain) same)
  | delete attr known =>
    obtain ⟨⟨nonempty,_⟩,chars,⟨_,_,_,_,stop⟩,spelling⟩ :=
      written.attribute_speltIn _ (List.mem_of_find?_eq_some known)
    have some_ := spelling.byteLength_pos nonempty
    simp only [deleteAttribute,byteLength_nil] at size
    omega
  | wrap =>
    cases rewrites with
    | «attribute» _ _ kind => cases kind
    | wrap =>
      have sizes := congrArg byteLength unchanged
      simp only [List.cons_append,byteLength_cons,byteLength_append] at sizes
      grind
  | remove =>
    cases rewrites with
    | «attribute» _ _ kind => cases kind
    | remove => cases unchanged
  | renameBoth new other | renameOpening new other =>
    exact absurd (written.rename_self new rewrites unchanged) (by simp [other])

end Fix

namespace Session

variable (analyzer : Analyzer)

/-- No fix on offer would change the text. -/
def Exhausted (text : List Char) : Prop :=
  ∀ violation ∈ (analyzer.analyze text).violations, ∀ fix ∈ violation.fixes, ∀ edit,
    fix.plan text violation.location.offset analyzer.filter = .ok (.applied edit) →
      edit.apply text = .ok text

/-- The first edit on offer has no effect, and it sets a value with a double quote in it. -/
def Starved (text : List Char) : Prop :=
  ∃ violation ∈ (analyzer.analyze text).violations, ∃ fix ∈ violation.fixes, ∃ edit,
    fix.setsQuote = true ∧ firstEdit? analyzer text (analyzer.analyze text) = some edit ∧
      fix.plan text violation.location.offset analyzer.filter = .ok (.applied edit) ∧
      edit.apply text = .ok text

theorem exhausted_or_starved (filter : Filter) (filtered : analyzer.filter = filter) (text : List Char) (rest : improve? analyzer text = none) :
    Exhausted analyzer text ∨ Starved analyzer text := by
  cases first : firstEdit? analyzer text (analyzer.analyze text) with
  | none =>
    left
    intro violation member fix offered edit planned
    have nothing := List.findSome?_eq_none_iff.mp first violation member
    have missing := List.findSome?_eq_none_iff.mp nothing fix offered
    rw [(editOf?_eq_some analyzer).mpr planned] at missing
    contradiction
  | some edit =>
    right
    obtain ⟨violation,member,fix,offered,planned⟩ := planned_of_firstEdit? analyzer first
    have given := planned
    rw [filtered] at given
    obtain ⟨target,located,made⟩ := Fix.planOn_of_applied given
    obtain ⟨outcome,ended,local_⟩ := fix.planOn_localTo text filter target located
    obtain rfl := Except.ok.inj (ended.symm.trans made)
    obtain ⟨_,_,_,_,_,_,_,_,_,_,applied⟩ := local_ edit rfl
    have same : edit.apply text = .ok text := by
      by_contra changed
      rw [applied] at changed
      have improved := (improve?_eq_some_iff analyzer).mpr
        ⟨edit,first,applied,fun equal => changed (congrArg Except.ok equal)⟩
      rw [rest] at improved
      contradiction
    refine ⟨violation,member,fix,offered,edit,?_,first,planned,same⟩
    by_contra plain
    exact Fix.planOn_effective located made (Bool.eq_false_iff.mpr plain) same

theorem setsQuote_of_asks {elements : List Element} {element : Element} {fix : Fix}
    (asks : Asks elements element fix) : fix.setsQuote = false := by
  cases asks with
  | focus => decide
  | unfocus => decide
  | correct attr _ legal _ meant correction =>
    have words : ∀ word ∈ ["true","false"], word.toList.contains '"' = false := by decide
    exact words meant (Rules.AriaAttributeValue.correction_words correction)
  | reveal => rfl
  | hide => rfl
  | wrap => rfl
  | complete => rfl
  | unmark => rfl

theorem not_starved_of_builtIn (builtIn : ∀ rule ∈ analyzer.registry.rules,
    ∃ settings, rule ∈ Rules.catalogue settings) (text : List Char) : ¬ Starved analyzer text := by
  rintro ⟨violation,member,fix,offered,edit,quote,_⟩
  obtain ⟨rule,listed,found,known,fixes,_⟩ := analyzer.rule_of_offers text violation.location.offset fix
    ⟨violation,member,offered,rfl⟩
  obtain ⟨settings,among⟩ := builtIn rule listed
  have plain : fix.setsQuote = false := by
    rcases Rules.asks_of_catalogue settings rule among _ _
      (Document.read_linked text analyzer.filter) found known with asks | ⟨_,renames⟩
    · obtain ⟨element,_,_,asked⟩ := asks fix fixes
      exact setsQuote_of_asks asked
    · rw [renames fix fixes]
      rfl
  rw [plain] at quote
  contradiction

/-- Where mending comes to rest nothing that can be mended is left, unless the first edit on offer sets a
value with a double quote in it and has no effect. The rules of the linter set no such value, however they
are configured. -/
theorem converged_exhausted (filter : Filter) (filtered : analyzer.filter = filter) (session : Session)
    (maxPasses : Nat)
    (converged : (session.fixAll analyzer maxPasses).1.converged = true) :
    let text := (session.fixAll analyzer maxPasses).1.text
    (Exhausted analyzer text ∨ Starved analyzer text) ∧
      ((∀ rule ∈ analyzer.registry.rules, ∃ settings, rule ∈ Rules.catalogue settings) →
        Exhausted analyzer text) := by
  intro text
  have either := exhausted_or_starved analyzer filter filtered text (improve?_of_converged analyzer converged)
  exact ⟨either,fun builtIn => either.resolve_right (not_starved_of_builtIn analyzer builtIn text)⟩

theorem converged_exhausted_value :
    let session : Session := { text := "<p aria-busy=yes>".toList }
    (session.fixAll Linter.standard.analyzer 2).1.converged = true ∧
      Exhausted Linter.standard.analyzer "<p aria-busy=\"true\">".toList := by
  intro session
  have converged : (session.fixAll Linter.standard.analyzer 2).1.converged = true := by
    rw [fixAll_eq]
    decide +kernel
  have mended : (session.fixAll Linter.standard.analyzer 2).1.text = "<p aria-busy=\"true\">".toList := by
    rw [fixAll_eq]
    decide +kernel
  have builtIn : ∀ rule ∈ Linter.standard.analyzer.registry.rules, ∃ settings, rule ∈ Rules.catalogue settings :=
    fun rule member => ⟨{},(List.mem_filter.mp member).1⟩
  refine ⟨converged,?_⟩
  rw [← mended]
  exact (converged_exhausted Linter.standard.analyzer (Filter.controlFlow Filter.defaultNameSpaces) rfl session 2
    converged).2 builtIn

def demanding (fixes : List Fix) : Rule :=
  RuleHead.withCheck { code := "X001",name := "demanding" } fun head doc =>
    (doc.indicesWhere (·.name == "a")).map fun i =>
      head.violation (doc.openTagLocation i) "" (fixes.map fun fix => ⟨"",some fix⟩)

theorem converged_starved (maxPasses : Nat) :
    let analyzer : Analyzer := Analyzer.ofRegistry
      ⟨[demanding [.setAttribute "title" "x\"y",.removeAttribute "hidden"]]⟩ {}
    let session : Session := { text := "<a title=\"x&quot;y\" hidden></a>".toList }
    (session.fixAll analyzer (maxPasses + 1)).1.converged = true ∧
      (session.fixAll analyzer (maxPasses + 1)).1.text = session.text ∧ ¬ Exhausted analyzer session.text := by
  intro analyzer session
  have rest : improve? analyzer session.text = none := by decide +kernel
  have left : ∃ violation ∈ (analyzer.analyze session.text).violations, ∃ fix ∈ violation.fixes,
      fix.plan session.text violation.location.offset analyzer.filter = .ok (.applied ⟨⟨19,26⟩,[]⟩) := by
    decide +kernel
  rw [fixAll_of_improve?_none analyzer session (maxPasses + 1) (Nat.le_add_left 1 maxPasses) rest]
  refine ⟨rfl,rfl,fun exhausted => ?_⟩
  obtain ⟨violation,member,fix,offered,planned⟩ := left
  have size := Edit.size_of_apply_self (exhausted violation member fix offered _ planned)
  simp at size

end Session

end AccessibleMarkup
