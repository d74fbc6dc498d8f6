import AccessibleMarkup.Proofs.OutlineReadings
import AccessibleMarkup.Proofs.PlainElements

/-! Items of lists in plain markup whose tags may be nested in any way. An element whose end is known
ends between two pieces, and never between the tag of a list and the tag of its first item. So putting
an element into a list leaves every item that directly follows the tag of a list where it is. -/
namespace AccessibleMarkup.Markup

open Text

namespace Token

def opensItem : Token → Bool
  | .opening tag => asciiLower tag.label == "li"
  | _ => false

def opensList : Token → Bool
  | .opening tag => asciiLower tag.label == "ul" && !tag.slash
  | _ => false

theorem render_ne_nil (token : Token) : token.render ≠ [] := by
  cases token with
  | text chars nonempty plain => exact nonempty
  | markup body plain ended inside => simp [render]
  | opening tag => simp [render,PlainTag.render]
  | closing name letter written foreign => simp [render]

theorem byteLength_render (token : Token) : 0 < byteLength token.render := by
  cases rendered : token.render with
  | nil => exact absurd rendered token.render_ne_nil
  | cons c rest =>
    have size := c.utf8Size_pos
    grind

end Token

theorem append_unique (first second left right : List Token) (same : first ++ second = left ++ right)
    (size : byteLength (renderAll first) = byteLength (renderAll left)) : first = left ∧ second = right := by
  induction first generalizing left with
  | nil =>
    cases left with
    | nil => exact ⟨rfl,same⟩
    | cons token left =>
      have some := token.byteLength_render
      rw [renderAll_cons,byteLength_append] at size
      simp only [renderAll,List.flatMap_nil,byteLength_nil] at size
      omega
  | cons token first ih =>
    cases left with
    | nil =>
      have some := token.byteLength_render
      rw [renderAll_cons,byteLength_append] at size
      simp only [renderAll,List.flatMap_nil,byteLength_nil] at size
      omega
    | cons other left =>
      obtain ⟨rfl,rest⟩ := List.cons.inj same
      rw [renderAll_cons,renderAll_cons,byteLength_append,byteLength_append] at size
      obtain ⟨rfl,equal⟩ := ih left rest (by omega)
      exact ⟨rfl,equal⟩

namespace Outline

def readTokens (length offset : Nat) (tokens : List Token) (outline : Outline) : Outline :=
  (tagsFrom offset tokens).foldl (read length) outline

theorem readTokens_append (length offset : Nat) (first second : List Token) (outline : Outline) :
    outline.readTokens length offset (first ++ second) =
      (outline.readTokens length offset first).readTokens length (offset + byteLength (renderAll first))
        second := by
  rw [readTokens,tagsFrom_append,List.foldl_append]
  rfl

theorem readTokens_cons (length offset : Nat) (token : Token) (rest : List Token) (outline : Outline) :
    outline.readTokens length offset (token :: rest) =
      ((token.tag? offset).toList.foldl (read length) outline).readTokens length
        (offset + byteLength token.render) rest := by
  rw [readTokens,tagsFrom,List.foldl_append]
  rfl

end Outline

theorem outlineNodes_renderAll (tokens : List Token) :
    outlineNodes (renderAll tokens) =
      (({} : Outline).readTokens (byteLength (renderAll tokens)) 0 tokens).nodes := by
  rw [outlineNodes,Outline.ofTags,lex_renderAll]
  rfl

/-- Whether the tag of a list comes right before what follows the pieces; `listed` says whether one
comes right before them. -/
def listedAfter (listed : Bool) : List Token → Bool
  | [] => listed
  | token :: rest => listedAfter token.opensList rest

theorem listedAfter_append (listed : Bool) (first second : List Token) :
    listedAfter listed (first ++ second) = listedAfter (listedAfter listed first) second := by
  induction first generalizing listed with
  | nil => rfl
  | cons token rest ih => exact ih _

theorem listedAfter_concat (listed : Bool) (tokens : List Token) (token : Token) :
    listedAfter listed (tokens ++ [token]) = token.opensList := by
  rw [listedAfter_append]
  rfl

/-- The pieces can be divided in two without parting the tag of a list from its first item. -/
def Divides (first second : List Token) : Prop :=
  listedAfter false first = true → second.head?.any Token.opensItem = false

def Cuts (tokens : List Token) (offset : Nat) : Prop :=
  ∃ first second, tokens = first ++ second ∧ offset = byteLength (renderAll first) ∧ Divides first second

/-- The known ends of the elements that were read so far, and the list that is open. -/
structure Outline.EndsBetween (outline : Outline) (tokens done : List Token) : Prop where
  known : ∀ node ∈ outline.nodes, node.extent.isKnown = true → Cuts tokens node.stop
  list : listedAfter false done = true → outline.path.head?.map (·.name) = some "ul"

namespace Outline

theorem known_modify {tokens : List Token} (nodes : List Node) (k : Nat) (change : Node → Node)
    (known : ∀ node ∈ nodes, node.extent.isKnown = true → Cuts tokens node.stop)
    (changed : ∀ node, (change node).extent.isKnown = true → Cuts tokens (change node).stop) :
    ∀ node ∈ nodes.modify k change, node.extent.isKnown = true → Cuts tokens node.stop := by
  intro node member
  obtain ⟨i,found⟩ := List.mem_iff_getElem?.mp member
  obtain ⟨before,present,rfl⟩ := getElem?_modify_some found
  split_ifs
  · exact changed before
  · exact known before (List.mem_of_getElem? present)

theorem known_endAll {tokens : List Token} (nodes : List Node) (ended : List OpenNode) (offset : Nat)
    (extent : OpenNode → Extent)
    (known : ∀ node ∈ nodes, node.extent.isKnown = true → Cuts tokens node.stop)
    (cuts : (∃ entry, (extent entry).isKnown = true) → Cuts tokens offset) :
    ∀ node ∈ endAll nodes ended offset extent, node.extent.isKnown = true → Cuts tokens node.stop := by
  unfold endAll
  induction ended generalizing nodes with
  | nil => exact known
  | cons entry rest ih =>
    apply ih
    exact known_modify nodes _ _ known fun node isKnown => cuts ⟨entry,isKnown⟩

variable {tokens done rest : List Token} {outline : Outline}

theorem EndsBetween.sibling (between : outline.EndsBetween tokens done) {tag : PlainTag}
    (parts : tokens = done ++ .opening tag :: rest) {next : Outline}
    (sibling : outline.SiblingStep (asciiLower tag.label) (byteLength (renderAll done)) next) :
    ∀ node ∈ next.nodes, node.extent.isKnown = true → Cuts tokens node.stop := by
  cases sibling with
  | stays => exact between.known
  | ends top outer path loose same =>
    refine known_endAll _ _ _ _ between.known fun _ => ⟨done,_,parts,rfl,fun list => ?_⟩
    have name := between.list list
    rw [path,List.head?_cons,Option.map_some,same] at name
    simp [Token.opensItem,Option.some.inj name]

theorem EndsBetween.opening (between : outline.EndsBetween tokens done) (tag : PlainTag)
    (parts : tokens = done ++ .opening tag :: rest) (length : Nat) :
    ((outline.read length ⟨.opening tag.slash,tag.label,byteLength (renderAll done),
      byteLength (renderAll done) + byteLength tag.render,true⟩)).EndsBetween tokens
        (done ++ [.opening tag]) := by
  have inside : listedAfter false (done ++ [.opening tag]) = Token.opensList (.opening tag) :=
    listedAfter_concat _ _ _
  have whole : byteLength (renderAll (done ++ [.opening tag])) =
      byteLength (renderAll done) + byteLength tag.render := by
    rw [renderAll_append,byteLength_append]
    simp [renderAll,Token.render]
  have list (opens : listedAfter false (done ++ [.opening tag]) = true) :
      tag.slash = false ∧ isVoid (asciiLower tag.label) = false ∧ asciiLower tag.label = "ul" := by
    rw [inside] at opens
    simp only [Token.opensList,Bool.and_eq_true,beq_iff_eq,Bool.not_eq_true'] at opens
    exact ⟨opens.2,by rw [opens.1]; decide,opens.1⟩
  refine ⟨?_,?_⟩
  · intro node member known
    rcases List.mem_append.mp member with earlier | new
    · exact between.sibling parts (outline.siblingStep _ _) node earlier known
    · rw [List.mem_singleton.mp new] at known ⊢
      simp only [openingExtent,Bool.not_true,Bool.false_eq_true,if_false] at known ⊢
      refine ⟨done ++ [.opening tag],rest,by simp [parts],?_,fun opens => ?_⟩
      · rw [if_neg,whole]
        intro open_
        rw [open_] at known
        contradiction
      · obtain ⟨slash,void,_⟩ := list opens
        simp [slash,void,Extent.isKnown] at known
  · intro opens
    obtain ⟨slash,void,name⟩ := list opens
    rw [name] at void
    rw [read_of_opening rfl]
    simp [enter,hasContent,slash,void,name]

theorem EndsBetween.closing (between : outline.EndsBetween tokens done) {tag : Tag} (token : Token)
    (parts : tokens = done ++ token :: rest) (quiet : token.opensItem = false ∧ token.opensList = false)
    (start : tag.start = byteLength (renderAll done))
    (stop : tag.stop = byteLength (renderAll (done ++ [token]))) {next : Outline}
    (closing : outline.ClosingStep tag next) : next.EndsBetween tokens (done ++ [token]) := by
  have none : listedAfter false (done ++ [token]) = false := by rw [listedAfter_concat,quiet.2]
  have before : Cuts tokens tag.start :=
    ⟨done,token :: rest,parts,start,fun _ => by simp [quiet.1]⟩
  have after : Cuts tokens tag.stop :=
    ⟨done ++ [token],rest,by simp [parts],stop,fun opens => by rw [none] at opens; cases opens⟩
  refine ⟨?_,fun opens => by rw [none] at opens; cases opens⟩
  cases closing with
  | closes =>
    apply known_modify
    · exact known_endAll _ _ _ _ between.known fun _ => before
    · exact fun _ _ => after
  | pays => exact between.known
  | strays => exact known_endAll _ _ _ _ between.known fun _ => before

theorem EndsBetween.token (between : outline.EndsBetween tokens done) (token : Token) (length : Nat)
    (parts : tokens = done ++ token :: rest) :
    ((token.tag? (byteLength (renderAll done))).toList.foldl (Outline.read length) outline).EndsBetween
      tokens (done ++ [token]) := by
  have whole : byteLength (renderAll (done ++ [token])) =
      byteLength (renderAll done) + byteLength token.render := by
    rw [renderAll_append,byteLength_append]
    simp [renderAll]
  have still (other : token.opensList = false) : outline.EndsBetween tokens (done ++ [token]) :=
    ⟨between.known,fun opens => by simp [listedAfter_concat,other] at opens⟩
  cases token with
  | text chars nonempty plain => exact still rfl
  | markup body plain ended inside => exact still rfl
  | opening tag => exact between.opening tag parts length
  | closing name letter written foreign =>
    exact between.closing _ parts ⟨rfl,rfl⟩ rfl whole.symm (outline.closingStep ⟨.closing,String.ofList name,_,_,true⟩)

theorem EndsBetween.readAll (between : outline.EndsBetween tokens done) (length : Nat)
    (parts : tokens = done ++ rest) :
    (outline.readTokens length (byteLength (renderAll done)) rest).EndsBetween tokens tokens := by
  induction rest generalizing done outline with
  | nil =>
    rw [List.append_nil] at parts
    rw [parts] at between ⊢
    exact between
  | cons token rest ih =>
    have read := between.token token length parts
    have whole : byteLength (renderAll (done ++ [token])) =
        byteLength (renderAll done) + byteLength token.render := by
      rw [renderAll_append,byteLength_append]
      simp [renderAll]
    have next := ih read (by simp [parts])
    rw [whole] at next
    rw [readTokens_cons]
    exact next

end Outline

theorem cuts_of_known (tokens : List Token) (node : Node) (member : node ∈ outlineNodes (renderAll tokens))
    (known : node.extent.isKnown = true) : Cuts tokens node.stop := by
  have started : ({} : Outline).EndsBetween tokens [] := ⟨by simp,by simp [listedAfter]⟩
  have read := started.readAll (byteLength (renderAll tokens)) rfl
  rw [outlineNodes_renderAll] at member
  exact read.known node member known

theorem exists_content (before rest : List Token) (tag : PlainTag) (node : Node)
    (member : node ∈ outlineNodes (renderAll (before ++ .opening tag :: rest)))
    (opens : node.openStop = byteLength (renderAll before) + byteLength tag.render)
    (known : node.extent.isKnown = true) :
    ∃ inside after, rest = inside ++ after ∧
      node.stop = byteLength (renderAll (before ++ .opening tag :: inside)) ∧
      Divides (before ++ .opening tag :: inside) after := by
  obtain ⟨i,found⟩ := List.mem_iff_getElem?.mp member
  have spans := (outlineNodes_forest _).spans i node found
  unfold Node.Spans at spans
  obtain ⟨first,second,parts,stop,divides⟩ := cuts_of_known _ node member known
  have whole : renderAll (before ++ [.opening tag]) = renderAll before ++ tag.render := by
    simp [renderAll,Token.render]
  have split : (before ++ [.opening tag]) ++ rest = first ++ second := by simpa using parts
  rcases List.append_eq_append_iff.mp split with ⟨inside,rfl,rfl⟩ | ⟨cut,shorter,later⟩
  · rw [List.append_assoc] at stop divides
    exact ⟨inside,second,rfl,stop,divides⟩
  · -- The element does not end before its tag does.
    have size := congrArg (fun tokens => byteLength (renderAll tokens)) shorter
    rw [whole,renderAll_append,byteLength_append,byteLength_append] at size
    obtain rfl : cut = [] := by
      cases cut with
      | nil => rfl
      | cons token cut =>
        have some := token.byteLength_render
        grind
    rw [List.append_nil] at shorter
    subst shorter later
    exact ⟨[],_,rfl,stop,divides⟩

def openItems (listed : Bool) : List Token → Nat
  | [] => 0
  | token :: rest => (if token.opensItem && !listed then 1 else 0) + openItems token.opensList rest

theorem openItems_append (listed : Bool) (first second : List Token) :
    openItems listed (first ++ second) =
      openItems listed first + openItems (listedAfter listed first) second := by
  induction first generalizing listed with
  | nil => simp [openItems,listedAfter]
  | cons token rest ih =>
    rw [List.cons_append,openItems,openItems,ih,listedAfter,Nat.add_assoc]

theorem openItems_of_divides (first second : List Token) (divides : Divides first second) :
    openItems (listedAfter false first) second = openItems false second := by
  cases second with
  | nil => rfl
  | cons token rest =>
    cases listed : listedAfter false first with
    | false => rfl
    | true =>
      have other : token.opensItem = false := divides listed
      simp [openItems,other]

def listTag : PlainTag where
  name := ['u','l']
  attributes := []
  space := []
  slash := false
  letter := ⟨'u',['l'],rfl,rfl⟩
  written := List.all_eq_true.mp rfl
  cooked := by decide
  foreign := by decide
  distinct := List.Pairwise.nil
  blank := by simp
  ended := by simp

def listClose : Token :=
  .closing ['u','l'] ⟨'u',['l'],rfl,rfl⟩ (List.all_eq_true.mp rfl) (by decide)

def wrapped (before : List Token) (tag : PlainTag) (inside after : List Token) : List Token :=
  before ++ .opening listTag :: .opening tag :: (inside ++ listClose :: after)

theorem openItems_wrapped (before inside after : List Token) (tag : PlainTag)
    (item : asciiLower tag.label = "li") (divides : Divides (before ++ .opening tag :: inside) after) :
    openItems false (wrapped before tag inside after) + (if listedAfter false before then 0 else 1) =
      openItems false (before ++ .opening tag :: (inside ++ after)) := by
  have isItem : Token.opensItem (.opening tag) = true := by simp [Token.opensItem,item]
  have noList : Token.opensList (.opening tag) = false := by simp [Token.opensList,item]
  have list : Token.opensItem (.opening listTag) = false ∧ Token.opensList (.opening listTag) = true := by
    decide
  have close : Token.opensItem listClose = false ∧ Token.opensList listClose = false := by decide
  have rest := openItems_of_divides _ _ divides
  rw [listedAfter_append,listedAfter,noList] at rest
  rw [wrapped,openItems_append,openItems_append]
  simp only [openItems,openItems_append,isItem,noList,list.1,list.2,close.1,close.2,rest,Bool.true_and,
    Bool.false_and,Bool.not_true,Bool.false_eq_true,if_false]
  cases listedAfter false before
  · simp only [Bool.not_false,Bool.false_eq_true,if_false,if_true]
    omega
  · simp only [Bool.false_eq_true,if_false,if_true,Bool.not_true]
    omega

end AccessibleMarkup.Markup
