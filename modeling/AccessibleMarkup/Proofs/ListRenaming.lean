import AccessibleMarkup.Proofs.DocumentTraits
import AccessibleMarkup.Proofs.ElementRenaming
import AccessibleMarkup.Proofs.FaultlessRules
import AccessibleMarkup.Proofs.FixRounds
import AccessibleMarkup.Proofs.LoneRules

/-! Mending lists that read as ordered ones. Where the ends of all elements are known, the fix of a list writes
another name in its two tags, and all that the rule looks at stays as it was for the other lists. So each round
settles the first list that is reported, until none is left. -/
namespace AccessibleMarkup

open Text Markup

namespace Edit

/-- The text after some edits, made one after the other. -/
def applyAll (edits : List Edit) (text : List Char) : Except FixError (List Char) :=
  edits.foldlM (fun text edit => edit.apply text) text

theorem applyAll_cons {edit : Edit} {text next : List Char} (made : edit.apply text = .ok next) (edits : List Edit) :
    applyAll (edit :: edits) text = applyAll edits next := by
  rw [applyAll,List.foldlM_cons,made]
  rfl

theorem applyAll_append {edits : List Edit} {text next : List Char} (made : applyAll edits text = .ok next)
    (more : List Edit) : applyAll (edits ++ more) text = applyAll more next := by
  rw [applyAll] at made
  rw [applyAll,List.foldlM_append,made]
  rfl

end Edit

/-- The edits that write another name in place of the names in the two tags of an element. -/
def Markup.Node.nameEdits (node : Node) (name : List Char) : List Edit :=
  [⟨⟨node.start + 1,Fix.nameStop node⟩,name⟩,
    ⟨⟨node.closeStart + 2,node.closeStart + 2 + byteLength node.name.toList⟩,name⟩]

namespace Markup.Node.PairIn

variable {text : List Char} {node : Node} {pair : TagPair} {one other name : List Char}

theorem byteLength_name (placed : node.PairIn text pair one other) : byteLength node.name.toList = byteLength one := by
  rw [← placed.named,byteLength_asciiLower,String.toList_ofList]

theorem applyAll_nameEdits (placed : node.PairIn text pair one other) (size : byteLength name = byteLength one) :
    Edit.applyAll (node.nameEdits name) text = .ok (pair.render name name) := by
  have start : byteLength (pair.before ++ ['<']) = node.start + 1 := by
    rw [byteLength_append,placed.start]
    rfl
  have stop : Fix.nameStop node = node.start + 1 + byteLength one := by
    rw [Fix.nameStop,placed.byteLength_name]
  have closing : byteLength (pair.front name ++ pair.content ++ ['<','/']) = node.closeStart + 2 := by
    rw [pair.byteLength_closing,size,placed.closeStart]
  have first := Edit.apply_replacement (pair.before ++ ['<']) one
    (pair.inner ++ (pair.content ++ '<' :: '/' :: (other ++ pair.after))) name
  have second := Edit.apply_replacement (pair.front name ++ pair.content ++ ['<','/']) other pair.after name
  rw [start,← stop,← pair.render_opening,← placed.parts] at first
  rw [closing,placed.width,← placed.byteLength_name,← pair.render_closing] at second
  have middle : pair.before ++ ['<'] ++ name ++
      (pair.inner ++ (pair.content ++ '<' :: '/' :: (other ++ pair.after))) = pair.render name other := by
    simp [TagPair.render]
  have last : pair.front name ++ pair.content ++ ['<','/'] ++ name ++ pair.after = pair.render name name := by
    simp [TagPair.render,TagPair.front]
  rw [middle] at first
  rw [last] at second
  rw [nameEdits,Edit.applyAll_cons first,Edit.applyAll_cons second]
  rfl

theorem planRename_eq (placed : node.PairIn text pair one other) (closed : node.extent = .closed)
    (differ : sameIgnoringCase node.name (String.ofList name) = false) :
    ∃ edit, Fix.planRename text node (String.ofList name) = .ok (.applied edit) ∧
      edit.apply text = .ok (pair.render name name) := by
  have stop : Fix.nameStop node = byteLength (pair.before ++ '<' :: one) := by
    rw [Fix.nameStop,placed.byteLength_name,byteLength_append,byteLength_cons,placed.start]
    grind
  have closing : byteLength (pair.front one ++ pair.content ++ ['<','/']) = node.closeStart + 2 := by
    rw [pair.byteLength_closing,placed.closeStart]
  have split := splitAt?_append (pair.front one ++ pair.content ++ ['<','/']) (other ++ pair.after)
  rw [closing,← pair.render_closing,← placed.parts] at split
  have length : ((other ++ pair.after).takeWhile isNameChar).length = byteLength other := by
    rw [takeWhile_name other pair.after placed.closes.written pair.ended]
    exact (byteLength_of_small other fun c inside =>
      utf8Size_of_isNameChar (placed.closes.written c inside)).symm
  have middle : slice? text (Fix.nameStop node) (node.closeStart + 2) = some (pair.inner ++ pair.content ++ ['<','/']) := by
    have found := slice?_append (pair.before ++ '<' :: one) (pair.inner ++ pair.content ++ ['<','/'])
      (other ++ pair.after)
    have parts : pair.before ++ '<' :: one ++ (pair.inner ++ pair.content ++ ['<','/'] ++ (other ++ pair.after)) =
        text := by
      rw [placed.parts]
      simp [TagPair.render]
    have reach : byteLength (pair.before ++ '<' :: one) + byteLength (pair.inner ++ pair.content ++ ['<','/']) =
        node.closeStart + 2 := by
      rw [← closing,← byteLength_append]
      simp [TagPair.front]
    rwa [parts,reach,← stop] at found
  have start : byteLength (pair.before ++ ['<']) = node.start + 1 := by
    rw [byteLength_append,placed.start]
    rfl
  have reach : node.start + 1 + byteLength (one ++ (pair.inner ++ pair.content ++ ['<','/']) ++ other) =
      node.closeStart + 2 + byteLength other := by
    rw [← start,← closing,← byteLength_append,← byteLength_append]
    simp [TagPair.front]
  have made := Edit.apply_replacement (pair.before ++ ['<'])
    (one ++ (pair.inner ++ pair.content ++ ['<','/']) ++ other) pair.after
    (name ++ (pair.inner ++ pair.content ++ ['<','/']) ++ name)
  have parts : pair.before ++ ['<'] ++ (one ++ (pair.inner ++ pair.content ++ ['<','/']) ++ other ++ pair.after) =
      text := by
    rw [placed.parts]
    simp [TagPair.render]
  rw [parts,start,reach] at made
  have known : node.extent.isKnown = true := by
    rw [closed]
    rfl
  refine ⟨_,?_,made.trans (congrArg Except.ok ?_)⟩
  · rw [Fix.planRename,differ,if_neg (by decide),known,if_neg (by decide),if_pos closed,Fix.renameBoth,split]
    simp only [Fix.sliceForEdit,middle,length,String.toList_ofList]
    rfl
  · simp [TagPair.render]

end Markup.Node.PairIn

namespace Rules.ListSemantics

variable {settings : Settings} {head : RuleHead} {doc other : Document} {text : List Char}

def isJudged (element : Element) : Bool := element.name == "ul" && element.hasRole "list" && element.isKnown

/-- The lists that the rule reports, with their indices. -/
def reported (settings : Settings) (doc : Document) : List (Element × Nat) :=
  doc.indexed.filter fun entry => isJudged entry.1 && (classifyList settings doc entry.2).isSome

/-- What a violation says about a reported list. -/
structure Finds (doc : Document) (violation : Violation) (entry : Element × Nat) : Prop where
  list : doc.elements[entry.2]? = some entry.1
  location : violation.location = doc.openTagLocation entry.2
  fixes : violation.fixes = [.rename "ol"]

theorem check_reported (settings : Settings) (head : RuleHead) (doc : Document) :
    List.Forall₂ (Finds doc) (check settings head doc) (reported settings doc) := by
  have among (entries : List (Element × Nat)) (listed : ∀ entry ∈ entries, doc.elements[entry.2]? = some entry.1) :
      List.Forall₂ (Finds doc)
        ((entries.filter fun entry => isJudged entry.1).filterMap fun entry => judge? settings head doc entry.2)
        (entries.filter fun entry => isJudged entry.1 && (classifyList settings doc entry.2).isSome) := by
    induction entries with
    | nil => exact .nil
    | cons entry entries ih =>
      obtain ⟨here,further⟩ := List.forall_mem_cons.mp listed
      have others := ih further
      cases judged : isJudged entry.1 with
      | false => simpa [judged] using others
      | true =>
        cases kind : classifyList settings doc entry.2 with
        | none =>
          have none : judge? settings head doc entry.2 = none := by rw [judge?,kind]; rfl
          simpa [judged,kind,none] using others
        | some found =>
          have some : ∃ violation, judge? settings head doc entry.2 = some violation ∧ Finds doc violation entry :=
            ⟨_,by rw [judge?,kind]; rfl,here,rfl,rfl⟩
          obtain ⟨violation,found,finds⟩ := some
          simpa [judged,kind,found] using ⟨finds,others⟩
  have listed := among doc.indexed fun entry => doc.mem_indexed entry.1 entry.2
  rw [check,Document.indicesWhere,List.filterMap_map]
  exact listed

theorem filled_of_classified {i : Nat} {list : Element} (found : (elements text)[i]? = some list)
    (positive : 1 ≤ settings.minItems)
    (classified : (classifyList settings (Document.read text) i).isSome = true) : list.openStop < list.closeStart := by
  have items : (Document.read text).groupMembers i ["listitem"] ["list"] ≠ [] := by
    intro none
    rw [classifyList,none,classify] at classified
    simp only [List.map_nil,sample,List.filter_nil,List.take_nil,List.length_nil] at classified
    rw [if_pos (by omega)] at classified
    contradiction
  obtain ⟨item,member⟩ := List.exists_mem_of_ne_nil _ items
  obtain ⟨inside,nearest⟩ := List.mem_filter.mp member
  obtain ⟨element,present,_⟩ := (Document.read text).holdsAt_some _ _ (List.mem_filter.mp inside).2
  have present : (elements text)[item]? = some element := present
  have around : i ∈ (Document.read text).ancestors item :=
    List.mem_of_find?_eq_some (beq_iff_eq.mp nearest)
  have enclosed := (mem_ancestorsWithin text (elements text).length item i
    (List.getElem?_eq_some_iff.mp present).1.le).mp around
  rw [elements_getElem?] at found present
  obtain ⟨outer,first,rfl⟩ := Option.map_eq_some_iff.mp found
  obtain ⟨inner,second,rfl⟩ := Option.map_eq_some_iff.mp present
  have forest := outlineNodes_forest text
  obtain ⟨after,before⟩ := enclosed.inside forest outer inner first second
  have spans := forest.spans item inner second
  unfold Node.Spans at spans
  change outer.openStop < outer.closeStart
  omega

theorem classifyList_congr (same : other.elements.map Element.traits = doc.elements.map Element.traits)
    (texts : ∀ i, other.innerText i = doc.innerText i) (i : Nat) :
    classifyList settings other i = classifyList settings doc i := by
  rw [classifyList,classifyList,Document.groupMembers_congr same]
  exact congrArg _ (List.map_congr_left fun item _ => texts item)

theorem zipIdx_modify {α : Type} (items : List α) (i : Nat) (change : α → α) :
    (items.modify i change).zipIdx = items.zipIdx.modify i fun entry => (change entry.1,entry.2) := by
  refine List.ext_getElem? fun j => ?_
  simp only [List.getElem?_zipIdx,List.getElem?_modify,Nat.zero_add]
  cases items[j]? with
  | none => rfl
  | some item =>
    by_cases here : i = j <;> simp [here]

/-- If a reported list has another name, and nothing else that the rule looks at changes, the others are still
reported, and no more. -/
theorem reported_rename {list : Element} {i : Nat} {rest : List (Element × Nat)}
    (first : reported settings doc = (list,i) :: rest) (name : String) (differ : name ≠ "ul")
    (renamed : other.elements = doc.elements.modify i (·.rename name))
    (texts : ∀ i, other.innerText i = doc.innerText i) : reported settings other = rest := by
  have traits : other.elements.map Element.traits = doc.elements.map Element.traits := by
    rw [renamed]
    exact Outline.map_modify Element.traits doc.elements i (·.rename name) fun _ => rfl
  obtain ⟨front,back,parts,before,_,after⟩ := List.filter_eq_cons_iff.mp first
  have size : front.length = i := by
    have here : doc.indexed[front.length]? = some (list,i) := by
      rw [parts,List.getElem?_append_right le_rfl,Nat.sub_self]
      rfl
    rw [Document.indexed,List.getElem?_zipIdx,Nat.zero_add] at here
    obtain ⟨_,_,same⟩ := Option.map_eq_some_iff.mp here
    exact congrArg Prod.snd same
  have indexed : other.indexed = front ++ (list.rename name,i) :: back := by
    rw [Document.indexed,renamed,zipIdx_modify,← Document.indexed,parts,← size]
    exact Outline.modify_middle front back (list,front.length) _
  have judged : isJudged (list.rename name) = false := by
    simp [isJudged,Element.rename,differ]
  have holds : (fun entry : Element × Nat => isJudged entry.1 && (classifyList settings other entry.2).isSome) =
      fun entry => isJudged entry.1 && (classifyList settings doc entry.2).isSome :=
    funext fun entry => by rw [classifyList_congr traits texts]
  have none : front.filter (fun entry => isJudged entry.1 && (classifyList settings doc entry.2).isSome) = [] :=
    List.filter_eq_nil_iff.mpr before
  rw [reported,indexed,holds,List.filter_append,none,List.nil_append,List.filter_cons_of_neg (by simp [judged]),after]

theorem innerText_renamed {next : List Char} {i : Nat} {name : String}
    (renamed : elements next = (elements text).modify i (·.rename name))
    (texts : ∀ element ∈ elements text, element.innerText next = element.innerText text) (k : Nat) :
    (Document.read next).innerText k = (Document.read text).innerText k := by
  have there : (Document.read next).elements[k]? =
      (elements text)[k]?.map (if i = k then (·.rename name) else id) := by
    change (elements next)[k]? = _
    rw [renamed,List.getElem?_modify]
    split_ifs <;> rfl
  have here : (Document.read text).elements[k]? = (elements text)[k]? := rfl
  rw [Document.innerText,Document.innerText,there,here]
  cases found : (elements text)[k]? with
  | none => rfl
  | some element =>
    have same := texts element (List.mem_of_getElem? found)
    dsimp only [Option.map_some]
    split_ifs
    · exact same
    · exact same

theorem tagName_ol : TagName ['o','l'] := ⟨⟨'o',['l'],rfl,rfl⟩,List.all_eq_true.mp rfl,by decide⟩

theorem ordinary_ul : Ordinary "ul" := ⟨⟨by decide,by decide⟩,by decide,by decide⟩

/-- What the fix of a list comes to: both names in its tags are written anew, every element keeps its end, and the
other lists that are reported are the same as before. -/
structure Fixed (settings : Settings) (text next : List Char) (list : Element) (rest : List (Element × Nat)) :
    Prop where
  closed : list.extent = .closed
  planned : ∃ edit, (Fix.rename "ol").plan text list.start Filter.keep = .ok (.applied edit) ∧ edit.apply text = .ok next
  renamed : Edit.applyAll (list.nameEdits ['o','l']) text = .ok next
  known : ∀ element ∈ elements next, element.isKnown = true
  reported : reported settings (Document.read next) = rest

theorem exists_fixed (known : ∀ element ∈ elements text, element.isKnown = true) (positive : 1 ≤ settings.minItems)
    {list : Element} {i : Nat} {rest : List (Element × Nat)}
    (first : reported settings (Document.read text) = (list,i) :: rest) : ∃ next, Fixed settings text next list rest := by
  have member : (list,i) ∈ reported settings (Document.read text) := first ▸ List.mem_cons_self
  obtain ⟨indexed,holds⟩ := List.mem_filter.mp member
  obtain ⟨judged,classified⟩ := Bool.and_eq_true_iff.mp holds
  have found : (elements text)[i]? = some list := (Document.read text).mem_indexed list i indexed
  have label : list.name = "ul" := by
    simp only [isJudged,Bool.and_eq_true,beq_iff_eq] at judged
    exact judged.1.1
  obtain ⟨closed,pair,one,other,placed,renamed⟩ := elements_rename known found (label ▸ ordinary_ul)
    (filled_of_classified found positive classified)
  have size : byteLength ['o','l'] = byteLength one := by
    rw [← placed.byteLength_name,label]
    rfl
  obtain ⟨after,texts⟩ := renamed ['o','l'] tagName_ol size ⟨by decide,by decide⟩ (by rw [label]; rfl)
  have lower : asciiLower (String.ofList ['o','l']) = "ol" := rfl
  rw [lower] at after
  obtain ⟨node,present,rfl⟩ := Option.map_eq_some_iff.mp ((elements_getElem? text i).symm.trans found)
  have inside := Element.openStop_le (List.mem_of_getElem? found)
  obtain ⟨parent,plan⟩ := Fix.plan_inside (.rename "ol") text node (List.mem_of_getElem? present) node.start le_rfl
    inside.1 (by decide)
  have differ : sameIgnoringCase (Element.ofNode text node).name (String.ofList ['o','l']) = false := by
    rw [label]
    decide
  obtain ⟨edit,planned,made⟩ := placed.planRename_eq closed differ
  refine ⟨_,closed,⟨edit,plan.trans planned,made⟩,placed.applyAll_nameEdits size,fun element member => ?_,
    reported_rename first "ol" (by decide) after (innerText_renamed after texts)⟩
  have kept := Outline.map_modify Element.isKnown (elements text) i (·.rename "ol") fun _ => rfl
  rw [← after] at kept
  have listed : element.isKnown ∈ (elements text).map Element.isKnown := kept ▸ List.mem_map_of_mem member
  obtain ⟨before,old,same⟩ := List.mem_map.mp listed
  rw [← same]
  exact known before old

theorem reported_rising (settings : Settings) (text : List Char) :
    (reported settings (Document.read text)).Pairwise fun first second => first.1.start < second.1.start := by
  have listed : (Document.read text).indexed.Pairwise fun first second => first.1.start < second.1.start := by
    have rising := (elements_preorderForest text).rising
    have same : (Document.read text).indexed.map Prod.fst = elements text := List.zipIdx_map_fst 0 _
    rwa [← same,List.pairwise_map] at rising
  exact listed.sublist List.filter_sublist

section Rounds

variable {analyzer : Analyzer} {severity : Severity}

/-- The settings of the rule, with what the configuration of the analyzer changes. -/
def configured (analyzer : Analyzer) (severity : Severity) (settings : Settings) : Settings :=
  settings.normalize.configure ((analyzer.config.block? (rule severity settings).name).getD {})

theorem minItems_configured : 1 ≤ (configured analyzer severity settings).minItems := le_max_right _ _

theorem violations_reported (runs : analyzer.Runs (rule severity settings)) (text : List Char) :
    List.Forall₂ (fun violation entry => violation.location.offset = entry.1.start ∧ violation.fixes = [.rename "ol"])
      (analyzer.analyze text).violations
      (reported (configured analyzer severity settings) (Document.read text)) := by
  have found : analyzer.found (rule severity settings) (Document.read text) =
      check (configured analyzer severity settings) (head severity) (Document.read text) :=
    Analyzer.found_of_answer (run_eq (Document.read_linked text Filter.keep) _ _)
  have listed := check_reported (configured analyzer severity settings) (head severity) (Document.read text)
  have place (violation : Violation) (entry : Element × Nat) (finds : Finds (Document.read text) violation entry) :
      violation.location.offset = entry.1.start := by
    rw [finds.location]
    exact Document.openTagLocation_offset finds.list
  have offsets : (check (configured analyzer severity settings) (head severity) (Document.read text)).map
      (·.location.offset) = (reported (configured analyzer severity settings) (Document.read text)).map (·.1.start) := by
    rw [← List.forall₂_eq_eq_eq,List.forall₂_map_left_iff,List.forall₂_map_right_iff]
    exact listed.imp place
  have rising := List.pairwise_map.mpr (reported_rising (configured analyzer severity settings) text)
  rw [← offsets,List.pairwise_map,← found] at rising
  have placed : ∀ violation ∈ analyzer.found (rule severity settings) (Document.read text), violation.PlacedIn text := by
    intro violation member
    rw [found] at member
    exact ((reports _ _ _ violation member).located (Document.read_linked text Filter.keep)).placedIn
  rw [runs.violations_of_rising text placed rising,found,List.forall₂_map_left_iff]
  exact listed.imp fun violation entry finds => ⟨place violation entry finds,finds.fixes⟩

theorem improve?_none (runs : analyzer.Runs (rule severity settings))
    (none : reported (configured analyzer severity settings) (Document.read text) = []) :
    Session.improve? analyzer text = .none ∧ (analyzer.analyze text).violations = [] := by
  have listed := violations_reported runs text
  rw [none,List.forall₂_nil_right_iff] at listed
  rw [Session.improve?,Session.firstEdit?,listed]
  exact ⟨rfl,rfl⟩

theorem improve?_some (runs : analyzer.Runs (rule severity settings))
    (known : ∀ element ∈ elements text, element.isKnown = true) {list : Element} {i : Nat}
    {rest : List (Element × Nat)}
    (first : reported (configured analyzer severity settings) (Document.read text) = (list,i) :: rest) :
    ∃ next, Session.improve? analyzer text = some next ∧
      Fixed (configured analyzer severity settings) text next list rest := by
  obtain ⟨next,fixed⟩ := exists_fixed known minItems_configured first
  obtain ⟨edit,planned,made⟩ := fixed.planned
  have listed := violations_reported runs text
  rw [first,List.forall₂_cons_right_iff] at listed
  obtain ⟨violation,others,⟨place,fixes⟩,_,violations⟩ := listed
  have offered : Session.editOf? analyzer text violation.location.offset (.rename "ol") = some edit :=
    (Session.editOf?_eq_some analyzer).mpr (by rw [place,runs.keeps]; exact planned)
  refine ⟨next,(Session.improve?_eq_some_iff analyzer).mpr ⟨edit,?_,made,?_⟩,fixed⟩
  · rw [Session.firstEdit?,violations,List.findSome?_cons,fixes,List.findSome?_cons,offered]
  · rintro rfl
    have same := fixed.reported.symm.trans first
    exact absurd same (List.cons_ne_self _ _).symm

/-- What mending comes to: each of the lists gets the other name, in the order of the text, and none is left. -/
structure Settles (text : List Char) (lists : List Element) (made : Nat) (report : FixReport) : Prop where
  applied : report.applied = made + lists.length
  converged : report.converged = true
  remaining : report.remaining = 0
  closed : ∀ list ∈ lists, list.extent = .closed
  renamed : Edit.applyAll (lists.flatMap fun list => list.nameEdits ['o','l']) text = .ok report.text

theorem improveWithin_settles (runs : analyzer.Runs (rule severity settings)) (rounds : Nat) :
    ∀ text made, (∀ element ∈ elements text, element.isKnown = true) →
      (reported (configured analyzer severity settings) (Document.read text)).length < rounds →
        Settles text ((reported (configured analyzer severity settings) (Document.read text)).map (·.1)) made
          (Session.improveWithin analyzer text made rounds) := by
  induction rounds with
  | zero => exact fun _ _ _ none => absurd none (Nat.not_lt_zero _)
  | succ rounds ih =>
    intro text made known enough
    rw [Session.improveWithin]
    cases first : reported (configured analyzer severity settings) (Document.read text) with
    | nil =>
      obtain ⟨rest,none⟩ := improve?_none runs first
      rw [rest]
      exact ⟨rfl,rfl,by rw [none]; rfl,by simp,rfl⟩
    | cons entry rest =>
      obtain ⟨list,i⟩ := entry
      obtain ⟨next,improved,fixed⟩ := improve?_some runs known first
      rw [first,List.length_cons] at enough
      have further := ih next (made + 1) fixed.known (by rw [fixed.reported]; omega)
      rw [fixed.reported] at further
      rw [improved]
      refine ⟨?_,further.converged,further.remaining,List.forall_mem_cons.mpr ⟨fixed.closed,further.closed⟩,?_⟩
      · rw [further.applied,List.map_cons,List.length_cons]
        omega
      · rw [List.map_cons,List.flatMap_cons,Edit.applyAll_append fixed.renamed]
        exact further.renamed

end Rounds

end Rules.ListSemantics

open Rules in
/-- Mending lists settles every text in which the ends of all elements are known: with more rounds than there are
violations it makes one fix for each of them and leaves none, and the text then differs from the first one in
the names in both tags of the lists that were reported. -/
theorem listSemantics_settles (analyzer : Analyzer) (severity : Severity) (settings : ListSemantics.Settings)
    (alone : analyzer.registry.rules = [ListSemantics.rule severity settings]) (keeps : analyzer.filter = Filter.keep)
    (ignores : analyzer.config.analyzer.respectAllowComments = false) (session : Session)
    (known : ∀ element ∈ elements session.text, element.isKnown = true) (maxPasses : Nat)
    (enough : (analyzer.analyze session.text).violations.length < maxPasses) :
    let violations := (analyzer.analyze session.text).violations
    let report := (session.fixAll analyzer maxPasses).1
    report.applied = violations.length ∧ report.converged = true ∧ report.remaining = 0 ∧
      ∃ lists : List Element, lists.Sublist (elements session.text) ∧
        lists.map (·.start) = violations.map (·.location.offset) ∧
        (∀ list ∈ lists, list.name = "ul" ∧ list.extent = .closed) ∧
        Edit.applyAll (lists.flatMap fun list => list.nameEdits ['o','l']) session.text = .ok report.text := by
  intro violations report
  cases enabled : analyzer.config.isEnabled (ListSemantics.rule severity settings).name with
  | false =>
    have clean := Analyzer.violations_of_disabled alone enabled session.text
    have rest : Session.improve? analyzer session.text = none := by
      rw [Session.improve?,Session.firstEdit?,clean]
      rfl
    have settled := Session.fixAll_of_improve?_none analyzer session maxPasses (by omega) rest
    refine ⟨?_,?_,?_,[],List.nil_sublist _,by simp [violations,clean],by simp,?_⟩
    all_goals simp only [report,violations,settled,clean]
    all_goals rfl
  | true =>
    have runs : analyzer.Runs (ListSemantics.rule severity settings) := ⟨alone,enabled,keeps,ignores⟩
    let lists := ListSemantics.reported (ListSemantics.configured analyzer severity settings)
      (Document.read session.text)
    have listed := ListSemantics.violations_reported runs session.text
    have count : violations.length = lists.length := listed.length_eq
    have settles := ListSemantics.improveWithin_settles runs maxPasses session.text 0 known
      (count.symm.trans_lt enough)
    have same : report = Session.improveWithin analyzer session.text 0 maxPasses :=
      congrArg Prod.fst (Session.fixAll_eq analyzer session maxPasses)
    rw [← same] at settles
    have named : ∀ list ∈ lists.map (·.1), list.name = "ul" := by
      intro list member
      obtain ⟨entry,reported,rfl⟩ := List.mem_map.mp member
      have judged := (Bool.and_eq_true_iff.mp (List.mem_filter.mp reported).2).1
      simp only [ListSemantics.isJudged,Bool.and_eq_true,beq_iff_eq] at judged
      exact judged.1.1
    have among : (lists.map (·.1)).Sublist (elements session.text) := by
      have all : (Document.read session.text).indexed.map Prod.fst = elements session.text := List.zipIdx_map_fst 0 _
      rw [← all]
      exact List.filter_sublist.map _
    refine ⟨?_,settles.converged,settles.remaining,lists.map (·.1),among,?_,
      fun list member => ⟨named list member,settles.closed list member⟩,settles.renamed⟩
    · rw [count]
      exact settles.applied.trans (by rw [Nat.zero_add,List.length_map])
    · rw [List.map_map,← List.forall₂_eq_eq_eq,List.forall₂_map_left_iff,List.forall₂_map_right_iff]
      exact listed.flip.imp fun entry violation same => same.1.symm

open Rules in
theorem listSemantics_settles_nested :
    let analyzer : Analyzer :=
      ⟨⟨[ListSemantics.rule]⟩,{ analyzer := { included := [],excluded := [],respectAllowComments := false } },Filter.keep⟩
    let text := "<ul><li>Step 1<li>Step 2<ul><li>First<li>Then</ul></ul>".toList
    (∀ element ∈ elements text, element.isKnown = true) ∧
      (analyzer.analyze text).violations.length = 2 ∧
      ((Session.fixAll analyzer { text } 3).1).applied = 2 ∧
      ((Session.fixAll analyzer { text } 3).1).converged = true ∧
      ((Session.fixAll analyzer { text } 3).1).remaining = 0 := by
  intro analyzer text
  have known : ∀ element ∈ elements text, element.isKnown = true := by decide +kernel
  have two : (analyzer.analyze text).violations.length = 2 := by
    have runs : analyzer.Runs (ListSemantics.rule .info {}) := ⟨rfl,by decide +kernel,rfl,rfl⟩
    rw [(ListSemantics.violations_reported runs text).length_eq]
    decide +kernel
  obtain ⟨applied,converged,remaining,_⟩ := listSemantics_settles analyzer .info {} rfl rfl rfl { text } known 3
    (by change (analyzer.analyze text).violations.length < 3; omega)
  exact ⟨known,two,applied.trans two,converged,remaining⟩

end AccessibleMarkup
