import AccessibleMarkup.Proofs.FixProgress
import AccessibleMarkup.Proofs.FixRounds
import AccessibleMarkup.Proofs.SoleItems

/-! Mending plain markup comes to an end. Every fix either puts an item into a list, and then fewer items
lack one, or sets an attribute, and then the items are as before and less is left to mend. -/
namespace AccessibleMarkup

open Text Markup

def Markup.Token.alone? : Token → Option Element
  | .opening tag => some tag.alone
  | _ => none

def aloneElements (tokens : List Token) : List Element := tokens.filterMap Token.alone?

@[simp] theorem aloneElements_append (first second : List Token) :
    aloneElements (first ++ second) = aloneElements first ++ aloneElements second :=
  List.filterMap_append

@[simp] theorem aloneElements_opening (tag : PlainTag) (rest : List Token) :
    aloneElements (.opening tag :: rest) = tag.alone :: aloneElements rest := rfl

theorem mem_aloneElements (before after : List Token) (tag : PlainTag) :
    tag.alone ∈ aloneElements (before ++ .opening tag :: after) := by
  rw [aloneElements_append,aloneElements_opening]
  exact List.mem_append_right _ List.mem_cons_self

/-- What is left to mend: items without a list, items without a list to themselves, attributes that are
wrong or missing, and what does not go with them. -/
def effort (tokens : List Token) : Nat × Nat × Nat × Nat :=
  (openItems false tokens,looseRank tokens,((aloneElements tokens).map Element.burden).sum,
    disorder (aloneElements tokens))

def Eases (after before : List Token) : Prop :=
  Prod.Lex (· < ·) (Prod.Lex (· < ·) (Prod.Lex (· < ·) (· < ·))) (effort after) (effort before)

theorem eases_wf : WellFounded Eases :=
  InvImage.wf effort (inferInstance : WellFoundedRelation (Nat × Nat × Nat × Nat)).wf

theorem Session.improve?_some (analyzer : Analyzer) (text next : List Char)
    (improved : improve? analyzer text = some next) :
    ∃ offset fix edit, Report.Offers (analyzer.analyze text).violations offset fix ∧
      fix.plan text offset analyzer.filter = .ok (.applied edit) ∧ edit.apply text = .ok next := by
  obtain ⟨edit,first,applied,_⟩ := (improve?_eq_some_iff analyzer).mp improved
  obtain ⟨violation,member,fix,offered,planned⟩ := planned_of_firstEdit? analyzer first
  exact ⟨_,fix,edit,⟨violation,member,offered,rfl⟩,planned,applied⟩

def Mended (before after : List Token) (tag : PlainTag) (edit : Edit) : Prop :=
  ∃ changed : PlainTag, edit.apply (renderAll (before ++ .opening tag :: after)) =
      .ok (renderAll (before ++ .opening changed :: after)) ∧
    changed.name = tag.name ∧ changed.slash = tag.slash ∧
    Improves (aloneElements before) (aloneElements after) tag.alone changed.alone

theorem Markup.Element.StandsFor.Mends.mended {before after : List Token} {tag : PlainTag} {edit : Edit}
    {name : String} {value : Option String} (mends : Element.StandsFor.Mends before after tag edit name value)
    (improves : ∀ changed, tag.Updates changed name value →
      Improves (aloneElements before) (aloneElements after) tag.alone changed.alone) :
    Mended before after tag edit := by
  obtain ⟨changed,applied,updates⟩ := mends
  exact ⟨changed,applied,updates.name,updates.slash,improves changed updates⟩

theorem isClaimed_of_controls {before after : List Token} {tag : PlainTag} {element controller : Element}
    (stands : element.StandsFor before tag)
    (member : controller ∈ elements (renderAll (before ++ .opening tag :: after)))
    (controls : controller.controls element = true) (name : String) (active : Bool)
    (state : Rules.PanelVisibility.state? controller = some (name,active)) :
    tag.alone.isClaimed (aloneElements before ++ tag.alone :: aloneElements after) active = true := by
  obtain ⟨front,other,back,parts,standsToo⟩ := exists_standsFor _ controller member
  have present : other.alone ∈ aloneElements before ++ tag.alone :: aloneElements after := by
    have known := mem_aloneElements front back other
    rwa [← parts,aloneElements_append,aloneElements_opening] at known
  rw [Element.isClaimed,List.any_eq_true]
  refine ⟨other.alone,present,?_⟩
  rw [← standsToo.alike.controls stands.alike,controls,← standsToo.alike.state?,state]
  simp

theorem value_of_attribute {element : Element} {before : List Token} {tag : PlainTag}
    (stands : element.StandsFor before tag) (attr : Attribute) (member : attr ∈ element.attributes)
    (judged : asciiLower attr.name ∈ judgedNames) : tag.value? (asciiLower attr.name) = some attr.value := by
  have lower := mended_lower _ (List.mem_append_right _ (List.mem_append_left _ judged))
  rw [stands.attributes] at member
  obtain ⟨left,found,right,parts,rfl⟩ := PlainAttribute.mem_placeAll _ _ _ member
  rw [found.place_name] at lower ⊢
  rw [found.place_value]
  refine tag.value?_of_mem found (by simp [parts]) _ ?_
  rw [sameIgnoringCase,lower,beq_self_eq_true]

theorem mended_of_asks {before after : List Token} {tag : PlainTag} {element : Element}
    (stands : element.StandsFor before tag)
    (member : element ∈ elements (renderAll (before ++ .opening tag :: after)))
    (agree : Agree (aloneElements before ++ tag.alone :: aloneElements after)) {fix : Fix}
    (asks : Asks (elements (renderAll (before ++ .opening tag :: after))) element fix)
    (inTag : fix ≠ .wrap "ul" []) (parent : Option Node) (edit : Edit)
    (planned : fix.planOn (renderAll (before ++ .opening tag :: after)) ⟨element.toNode,parent⟩ =
      .ok (.applied edit)) : Mended before after tag edit := by
  have alike := stands.alike
  cases asks with
  | focus selected off =>
    rw [alike.value] at selected
    rw [alike.focusIndex?] at off
    have mends := stands.mends_set member "0" (fun _ => by decide) (by decide) parent edit planned
    exact mends.mended fun changed updates => PlainTag.improves_focus updates selected off _ _
  | unfocus other on =>
    rw [alike.value] at other
    rw [alike.inFocusOrder] at on
    have mends := stands.mends_set member "-1" (fun _ => by decide) (by decide) parent edit planned
    exact mends.mended fun changed updates => PlainTag.improves_unfocus updates other on _ _
  | reveal controller present controls name active hidden =>
    have claimed := isClaimed_of_controls stands present controls name true active
    rw [alike.has] at hidden
    have mends := stands.mends_remove member parent edit planned
    exact mends.mended fun changed updates =>
      PlainTag.improves_visibility updates _ _ agree true claimed hidden rfl
  | hide controller present controls name idle visible =>
    have claimed := isClaimed_of_controls stands present controls name false idle
    rw [alike.has] at visible
    have mends := stands.mends_add member "" (by decide) (by decide) parent edit planned
    exact mends.mended fun changed updates =>
      PlainTag.improves_visibility updates _ _ agree false claimed visible rfl
  | wrap item => exact absurd rfl inTag
  | correct attr own legal illegal meant correction proper =>
    have judged := judged_of_violated attr legal illegal
    have value := value_of_attribute stands attr own judged
    obtain ⟨plain,same,settled⟩ := correction_written _ meant correction
    have mends := stands.mends_set member meant
      (fun none => absurd (value.symm.trans none) (Option.some_ne_none _)) plain parent edit planned
    rw [same] at mends
    refine mends.mended fun changed updates => PlainTag.improves_correct updates judged attr.value ?_ correction
      settled _ _
    rw [tag.alone_value,value]
  | complete requirement known written absent =>
    rw [alike.writesRole] at written
    rw [alike.has] at absent
    have writable : ∀ one ∈ Rules.RequiredState.requirements, isWritableName one.name = true := by
      decide
    have mends := stands.mends_add member (Rules.RequiredState.startValue element requirement)
      (writable requirement known) (startValue_plain tag element alike requirement known) parent edit planned
    refine mends.mended fun changed updates =>
      PlainTag.improves_complete requirement updates known written absent ?_ _ _
    have literal : ∀ one ∈ Rules.RequiredState.requirements, String.ofList (escaped one.value) = one.value := by
      decide
    by_cases slider : requirement.name = "aria-valuenow"
    · exact Or.inl slider
    · rw [Rules.RequiredState.startValue,if_neg slider,literal requirement known]
      exact Or.inr rfl
  | unmark name marker present =>
    rw [alike.has] at present
    have mends := stands.mends_remove member parent edit planned
    refine mends.mended fun changed updates => PlainTag.improves_unmark updates ?_ present _ _
    rcases marker with rfl | rfl <;> decide

theorem openItems_changed (before after : List Token) (tag changed : PlainTag) (name : changed.name = tag.name)
    (slash : changed.slash = tag.slash) :
    openItems false (before ++ .opening changed :: after) = openItems false (before ++ .opening tag :: after) := by
  have label : changed.label = tag.label := congrArg String.ofList name
  have item : Token.opensItem (.opening changed) = Token.opensItem (.opening tag) := by
    rw [Token.opensItem,Token.opensItem,label]
  have list : Token.opensList (.opening changed) = Token.opensList (.opening tag) := by
    rw [Token.opensList,Token.opensList,label,slash]
  rw [openItems_append,openItems_append,openItems,openItems,item,list]

theorem eases_of_improves {before after : List Token} {tag changed : PlainTag} (name : changed.name = tag.name)
    (slash : changed.slash = tag.slash)
    (improves : Improves (aloneElements before) (aloneElements after) tag.alone changed.alone)
    (agree : Agree (aloneElements (before ++ .opening tag :: after))) :
    Eases (before ++ .opening changed :: after) (before ++ .opening tag :: after) ∧
      Agree (aloneElements (before ++ .opening changed :: after)) := by
  constructor
  · rw [Eases,effort,effort,openItems_changed before after tag changed name slash,
      looseRank_changed before after tag changed name slash]
    refine .right _ (.right _ ?_)
    simp only [aloneElements_append,aloneElements_opening,List.map_append,List.map_cons,List.sum_append,
      List.sum_cons]
    rcases improves.less with lighter | ⟨same,less⟩
    · exact .left _ _ (by omega)
    · rw [same]
      exact .right _ less
  · rw [aloneElements_append,aloneElements_opening] at agree ⊢
    refine agree.of_ties fun element member => Or.inl ?_
    rcases List.mem_append.mp member with left | rest
    · exact ⟨element,List.mem_append_left _ left,rfl,rfl,rfl⟩
    · rcases List.mem_cons.mp rest with rfl | right
      · exact ⟨tag.alone,List.mem_append_right _ List.mem_cons_self,improves.ties⟩
      · exact ⟨element,List.mem_append_right _ (List.mem_cons_of_mem _ right),rfl,rfl,rfl⟩

theorem wrapElement_apply (before inside after : List Token) (tag : PlainTag) (node : Node) (edit : Edit)
    (start : node.start = byteLength (renderAll before))
    (stop : node.stop = byteLength (renderAll (before ++ .opening tag :: inside)))
    (made : Fix.wrapElement (renderAll (before ++ .opening tag :: (inside ++ after))) node "ul" [] = .ok edit) :
    edit.apply (renderAll (before ++ .opening tag :: (inside ++ after))) =
      .ok (renderAll (wrapped before tag inside after)) := by
  have parts : renderAll (before ++ .opening tag :: (inside ++ after)) =
      renderAll before ++ (renderAll (.opening tag :: inside) ++ renderAll after) := by
    simp only [renderAll,List.flatMap_append,List.flatMap_cons,List.append_assoc]
  have ends : node.stop = byteLength (renderAll before) + byteLength (renderAll (.opening tag :: inside)) := by
    rw [stop,renderAll_append,byteLength_append]
  unfold Fix.wrapElement Fix.sliceForEdit at made
  rw [parts,start,ends,slice?_append] at made
  have opening : listTag.render = "<ul>".toList := by decide
  have closing : listClose.render = "</ul>".toList := by decide
  have text : renderAll (wrapped before tag inside after) =
      renderAll before ++ ("<ul>".toList ++ renderAll (.opening tag :: inside) ++ "</ul>".toList ++
        renderAll after) := by
    simp only [wrapped,renderAll_append,renderAll_cons,opening_render,opening,closing,List.append_assoc]
  rw [← Except.ok.inj made,parts,text,Edit.apply_replacement]
  simp

theorem isBlankBetween_self (first second : List Token) :
    Fix.isBlankBetween (renderAll (first ++ second)) (byteLength (renderAll first))
      (byteLength (renderAll first)) = true := by
  have nothing := slice?_append (renderAll first) [] (renderAll second)
  rw [List.nil_append,byteLength_nil,Nat.add_zero] at nothing
  rw [Fix.isBlankBetween,renderAll_append,nothing]
  rfl

theorem loose_of_planned {text : List Char} {node : Node} {earlier later : List Node} {anchor : Nat}
    {parent : Option Node} (parts : outlineNodes text = earlier ++ node :: later)
    (starts : node.start ≤ anchor) (stops : anchor < node.openStop)
    (located : FixTarget.locate? text anchor = some ⟨node,parent⟩)
    (untight : (parent.any fun outer => Fix.wrapsTightly text outer node "ul") = false)
    (first : Fix.isBlankBetween text node.start node.start = true)
    (last : Fix.isBlankBetween text node.stop node.stop = true) : earlier.getLast?.any node.fills = false := by
  cases ended : earlier.getLast? with
  | none => rfl
  | some list =>
    rw [Option.any_some,Bool.eq_false_iff]
    intro fills
    simp only [Node.fills,Bool.and_eq_true,beq_iff_eq] at fills
    obtain ⟨name,opens,closes⟩ := fills
    obtain ⟨front,rfl⟩ := List.getLast?_eq_some_iff.mp ended
    have forest := outlineNodes_forest text
    have listSpans := forest.spans front.length list (by simp [parts])
    have spans := forest.spans (front.length + 1) node (by simp [parts])
    unfold Node.Spans at listSpans spans
    have around : (list.start ≤ anchor && (list.start == anchor || anchor < list.stop)) = true := by
      have before : list.start ≤ anchor := by omega
      have after : anchor < list.stop := by omega
      simp [before,after]
    have outer : parent = some list := by
      have target := FixTarget.locate?_parts text _ later node parts anchor starts stops
      rw [located,List.filter_append,List.filter_cons,if_pos around,List.filter_nil,
        List.getLast?_concat] at target
      exact congrArg FixTarget.parent (Option.some.inj target)
    have tight : Fix.wrapsTightly text list node "ul" = true := by
      rw [Fix.wrapsTightly,name,opens,closes,first,last,sameIgnoringCase_refl]
      rfl
    rw [outer,Option.any_some,tight] at untight
    contradiction

theorem eases_of_wrap {before rest : List Token} {tag : PlainTag} {element : Element}
    (stands : element.StandsFor before tag)
    (member : element ∈ elements (renderAll (before ++ .opening tag :: rest))) (item : element.name = "li")
    (agree : Agree (aloneElements (before ++ .opening tag :: rest))) {anchor : Nat} {parent : Option Node}
    {edit : Edit} (starts : element.start ≤ anchor) (stops : anchor < element.openStop)
    (located : FixTarget.locate? (renderAll (before ++ .opening tag :: rest)) anchor =
      some ⟨element.toNode,parent⟩)
    (planned : (Fix.wrap "ul" []).planOn (renderAll (before ++ .opening tag :: rest)) ⟨element.toNode,parent⟩ =
      .ok (.applied edit)) :
    ∃ after, edit.apply (renderAll (before ++ .opening tag :: rest)) = .ok (renderAll after) ∧
      Eases after (before ++ .opening tag :: rest) ∧ Agree (aloneElements after) := by
  obtain ⟨node,found,rfl⟩ := List.mem_map.mp member
  have label : asciiLower tag.label = "li" := stands.name.symm.trans item
  cases Fix.planOn_eq_applied_iff.mp planned with
  | wrap _ _ known untight made =>
    obtain ⟨inside,after,rfl,stop,divides⟩ := exists_content before rest tag node found stands.openStop known
    refine ⟨wrapped before tag inside after,wrapElement_apply before inside after tag node edit stands.start stop
      made,?_,?_⟩
    · -- An item outside lists leaves the count. One that directly follows the tag of a list was no part of it,
      have items := openItems_wrapped before inside after tag label divides
      rw [Eases,effort,effort]
      cases listed : listedAfter false before with
      | false =>
        rw [listed,if_neg Bool.false_ne_true] at items
        exact .left _ _ (by omega)
      | true =>
        rw [listed,if_pos rfl,Nat.add_zero] at items
        rw [items]
        refine .right _ (.left _ _ ?_)
        obtain ⟨earlier,later,parts⟩ := List.append_of_mem found
        refine looseRank_wrapped before inside after tag label listed earlier later node parts stands.start known
          stop (loose_of_planned parts starts stops located untight ?_ ?_)
        · have start : node.start = byteLength (renderAll before) := stands.start
          rw [start]
          exact isBlankBetween_self before _
        · have whole := isBlankBetween_self (before ++ .opening tag :: inside) after
          rw [List.append_assoc,List.cons_append,← stop] at whole
          exact whole
    · have same : aloneElements (wrapped before tag inside after) =
          aloneElements before ++ listTag.alone :: tag.alone :: aloneElements (inside ++ after) := by
        simp only [wrapped,aloneElements_append,aloneElements_opening]
        rfl
      rw [aloneElements_append,aloneElements_opening] at agree
      refine agree.of_ties fun element member => ?_
      rw [same] at member
      rcases List.mem_append.mp member with left | right
      · exact Or.inl ⟨element,List.mem_append_left _ left,rfl,rfl,rfl⟩
      · rcases List.mem_cons.mp right with rfl | old
        · exact Or.inr ⟨rfl,rfl⟩
        · exact Or.inl ⟨element,List.mem_append_right _ old,rfl,rfl,rfl⟩

theorem improve?_eases (tokens : List Token) (agree : Agree (aloneElements tokens)) (next : List Char)
    (improved : Session.improve? Linter.standard.analyzer (renderAll tokens) = some next) :
    ∃ after, next = renderAll after ∧ Eases after tokens ∧ Agree (aloneElements after) := by
  obtain ⟨offset,fix,edit,offered,planned,applied⟩ := Session.improve?_some _ _ _ improved
  obtain ⟨element,member,⟨start,place,kind⟩,asks⟩ := asks_of_analyze (renderAll tokens) offset fix offered
  have filter : Linter.standard.analyzer.filter = Filter.controlFlow Filter.defaultNameSpaces := rfl
  rw [filter] at planned
  simp only [Document.read,filter,Filter.apply_toMarkupFilter,filter_renderAll] at member asks
  obtain ⟨before,tag,rest,rfl,stands⟩ := exists_standsFor tokens element member
  have inside : element.start ≤ start ∧ start < element.openStop := by
    rcases kind with rfl | ⟨attr,own,rfl⟩
    · have some : 0 < byteLength tag.render := (Token.opening tag).byteLength_render
      rw [stands.start,stands.openStop]
      omega
    · exact stands.attribute_start attr own
  have anchor : element.start ≤ offset ∧ offset < element.openStop := by
    have size : (Document.read (renderAll (before ++ .opening tag :: rest)) Linter.standard.analyzer.filter).length =
        byteLength (renderAll (before ++ .opening tag :: rest)) := rfl
    have whole : element.openStop ≤ byteLength (renderAll (before ++ .opening tag :: rest)) := by
      rw [stands.openStop,renderAll_append,renderAll_cons,byteLength_append,byteLength_append,opening_render]
      omega
    omega
  obtain ⟨parent,located,made⟩ := planOn_of_plan _ element member offset anchor.1 anchor.2 fix edit planned
  have ended (after : List Token) (result : edit.apply (renderAll (before ++ .opening tag :: rest)) =
      .ok (renderAll after)) : next = renderAll after := Except.ok.inj (applied.symm.trans result)
  -- A wrap may change which element contains which; all other fixes stay within one tag.
  by_cases wraps : fix = .wrap "ul" []
  · subst wraps
    have item : element.name = "li" := by cases asks with | wrap item => exact item
    obtain ⟨after,result,eases,agrees⟩ := eases_of_wrap stands member item agree anchor.1 anchor.2 located made
    exact ⟨after,ended after result,eases,agrees⟩
  · have tied := agree
    rw [aloneElements_append,aloneElements_opening] at tied
    obtain ⟨changed,result,name,slash,improves⟩ := mended_of_asks stands member tied asks wraps parent edit made
    obtain ⟨eases,agrees⟩ := eases_of_improves name slash improves agree
    exact ⟨_,ended _ result,eases,agrees⟩

theorem improveWithin_converges (tokens : List Token) (agree : Agree (aloneElements tokens)) :
    ∃ bound, ∀ rounds, bound ≤ rounds → ∀ made,
      (Session.improveWithin Linter.standard.analyzer (renderAll tokens) made rounds).converged = true := by
  induction tokens using eases_wf.induction with
  | _ tokens ih =>
    cases improved : Session.improve? Linter.standard.analyzer (renderAll tokens) with
    | none =>
      refine ⟨1,fun rounds enough made => ?_⟩
      obtain ⟨rounds,rfl⟩ := Nat.exists_eq_add_of_le' enough
      rw [Session.improveWithin,improved]
    | some next =>
      obtain ⟨after,rfl,eases,agrees⟩ := improve?_eases tokens agree next improved
      obtain ⟨bound,settles⟩ := ih after eases agrees
      refine ⟨bound + 1,fun rounds enough made => ?_⟩
      obtain ⟨rounds,rfl⟩ := Nat.exists_eq_add_of_le' (Nat.le_trans (Nat.le_add_left 1 bound) enough)
      rw [Session.improveWithin,improved]
      exact settles rounds (by omega) (made + 1)

theorem Markup.Element.Alike.sameTies {first second : Element} (alike : first.Alike second) :
    first.SameTies second := by
  refine ⟨(alike.value _).symm,(alike.value _).symm,?_⟩
  rw [Element.settledState?,Element.settledState?,Element.hasRole,Element.hasRole,alike.role,alike.value,alike.value,
    Element.expandedStart?,Element.expandedStart?,alike.writesRole]

theorem exists_element (before after : List Token) (tag : PlainTag) :
    ∃ element ∈ elements (renderAll (before ++ .opening tag :: after)), element.StandsFor before tag := by
  obtain ⟨node,found,head⟩ := Option.map_eq_some_iff.mp (head_at before after tag 0)
  have member : Element.ofNode (renderAll (before ++ .opening tag :: after)) node ∈
      elements (renderAll (before ++ .opening tag :: after)) :=
    List.mem_map_of_mem (List.mem_of_getElem? found)
  obtain ⟨front,other,back,parts,stands⟩ := exists_standsFor _ _ member
  have start : byteLength (renderAll before) = byteLength (renderAll front) :=
    (congrArg (·.2.1) head).symm.trans stands.start
  obtain ⟨rfl,same⟩ := append_unique before _ front _ parts start
  obtain rfl := Token.opening.inj (List.cons.inj same).1
  exact ⟨_,member,stands⟩

theorem agree_aloneElements (tokens : List Token) (agree : Agree (elements (renderAll tokens))) :
    Agree (aloneElements tokens) := by
  refine agree.of_ties fun alone member => Or.inl ?_
  obtain ⟨token,among,made⟩ := List.mem_filterMap.mp member
  cases token with
  | opening tag =>
    obtain rfl := Option.some.inj made
    obtain ⟨before,after,rfl⟩ := List.append_of_mem among
    obtain ⟨element,known,stands⟩ := exists_element before after tag
    exact ⟨element,known,stands.alike.sameTies⟩
  | text chars nonempty plain => contradiction
  | markup body plain ended inside => contradiction
  | closing name letter written foreign => contradiction

/-- Mending plain markup settles, where no two elements that control a panel come to contradict each
other. -/
theorem fixAll_settles (tokens : List Token) (agree : Agree (elements (renderAll tokens))) :
    ∃ bound, ∀ maxPasses, bound ≤ maxPasses → ∀ session : Session, session.text = renderAll tokens →
      (session.fixAll Linter.standard.analyzer maxPasses).1.converged = true := by
  obtain ⟨bound,settles⟩ := improveWithin_converges tokens (agree_aloneElements tokens agree)
  refine ⟨bound,fun maxPasses enough session text => ?_⟩
  rw [Session.fixAll_eq,text]
  exact settles maxPasses enough 0

def disclosure : List Token :=
  let controls := PlainAttribute.added "aria-controls" "p" (by decide) (by decide)
  let expanded := PlainAttribute.added "aria-expanded" "on" (by decide) (by decide)
  let id := PlainAttribute.added "id" "p" (by decide) (by decide)
  let hidden := PlainAttribute.added "hidden" "" (by decide) (by decide)
  let link : PlainTag :=
    ⟨['a'],[controls,expanded],[],false,⟨'a',[],rfl,rfl⟩,List.all_eq_true.mp rfl,by decide,by decide,
      by decide,listTag.blank,by simp⟩
  let panel : PlainTag :=
    ⟨['p'],[id,hidden],[],false,⟨'p',[],rfl,rfl⟩,List.all_eq_true.mp rfl,by decide,by decide,by decide,
      listTag.blank,by simp⟩
  let item : PlainTag :=
    ⟨"li".toList,[],[],false,⟨'l',['i'],rfl,rfl⟩,List.all_eq_true.mp rfl,by decide,by decide,
      listTag.distinct,listTag.blank,listTag.ended⟩
  let close : Token := .closing ['a'] ⟨'a',[],rfl,rfl⟩ (List.all_eq_true.mp rfl) (by decide)
  let itemClose : Token := .closing "li".toList ⟨'l',['i'],rfl,rfl⟩ (List.all_eq_true.mp rfl) (by decide)
  [.opening link,close,.opening link,close,.opening panel,.opening item,itemClose]

theorem fixAll_settles_disclosure :
    renderAll disclosure =
        ("<a aria-controls=\"p\" aria-expanded=\"on\"></a><a aria-controls=\"p\" aria-expanded=\"on\"></a>" ++
          "<p id=\"p\" hidden><li></li>").toList ∧
      Agree (elements (renderAll disclosure)) ∧
      ∃ bound, ∀ maxPasses, bound ≤ maxPasses → ∀ session : Session, session.text = renderAll disclosure →
        (session.fixAll Linter.standard.analyzer maxPasses).1.converged = true := by
  have agree : Agree (elements (renderAll disclosure)) := by decide +kernel
  exact ⟨by decide +kernel,agree,fixAll_settles disclosure agree⟩

theorem fixAll_cycle (analyzer : Analyzer) (first second : List Char)
    (there : Session.improve? analyzer first = some second)
    (back : Session.improve? analyzer second = some first) (maxPasses : Nat) :
    (Session.fixAll analyzer { text := first } maxPasses).1.converged = false := by
  have turns (rounds : Nat) : ∀ made, (Session.improveWithin analyzer first made rounds).converged = false ∧
      (Session.improveWithin analyzer second made rounds).converged = false := by
    induction rounds with
    | zero => exact fun made => ⟨rfl,rfl⟩
    | succ rounds ih =>
      intro made
      rw [Session.improveWithin,Session.improveWithin,there,back]
      exact ⟨(ih (made + 1)).2,(ih (made + 1)).1⟩
  rw [Session.fixAll_eq]
  exact (turns maxPasses 0).1

theorem fixAll_disputed (maxPasses : Nat) :
    (Session.fixAll Linter.standard.analyzer { text :=
      "<a aria-controls=p aria-expanded=true></a><a id=p aria-controls=p aria-expanded=false></a>".toList }
        maxPasses).1.converged = false := by
  refine fixAll_cycle _ _
    "<a aria-controls=p aria-expanded=true></a><a id=p aria-controls=p aria-expanded=false hidden></a>".toList ?_ ?_
      maxPasses
  · decide +kernel
  · decide +kernel

end AccessibleMarkup
