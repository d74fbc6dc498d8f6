import AccessibleMarkup.Proofs.WrappedItems
import Mathlib.Algebra.Group.Nat.Defs

/-! Items that have a list to themselves. Items are counted in document order, the earlier the heavier:
putting one that directly follows the tag of a list into a list of its own changes nothing about the items
before it, whatever it does to those after it. -/
namespace AccessibleMarkup.Markup

open Text

/-- Whether the element starts right after the tag of a list and ends where the content of the list does. -/
def Node.fills (item list : Node) : Bool :=
  list.name == "ul" && (list.openStop == item.start && list.closeStart == item.stop)

/-- For each item in document order, whether it has no list to itself; `before` is the element before. -/
def looseItems : Option Node → List Node → List Bool
  | _, [] => []
  | before, node :: rest =>
    (if node.name == "li" then [!before.any node.fills] else []) ++ looseItems (some node) rest

theorem looseItems_append (before : Option Node) (first second : List Node) :
    looseItems before (first ++ second) =
      looseItems before first ++ looseItems (first.getLast?.or before) second := by
  induction first generalizing before with
  | nil => rfl
  | cons node rest ih =>
    rw [List.cons_append,looseItems,looseItems,ih,List.append_assoc,List.getLast?_cons]
    cases rest.getLast? <;> rfl

theorem length_looseItems (before : Option Node) (nodes : List Node) :
    (looseItems before nodes).length = (nodes.map (·.name)).count "li" := by
  induction nodes generalizing before with
  | nil => rfl
  | cons node rest ih =>
    rw [looseItems,List.length_append,ih,List.map_cons,List.count_cons]
    split_ifs <;> simp [Nat.add_comm]

theorem looseItems_shift {move : Nat → Nat} (injective : ∀ x y, move x = move y → x = y)
    (before : Option Node) (nodes : List Node) :
    looseItems (before.map (·.shift move)) (nodes.map (·.shift move)) = looseItems before nodes := by
  have same (x y : Nat) : (move x == move y) = (x == y) := by
    rw [Bool.eq_iff_iff,beq_iff_eq,beq_iff_eq]
    exact ⟨injective x y,congrArg move⟩
  have fills (item list : Node) : (item.shift move).fills (list.shift move) = item.fills list := by
    simp only [Node.fills,Node.shift,same]
  induction nodes generalizing before with
  | nil => rfl
  | cons node rest ih =>
    have next := ih (some node)
    rw [Option.map_some] at next
    rw [List.map_cons,looseItems,looseItems,next]
    cases before with
    | none => rfl
    | some list =>
      rw [Option.map_some,Option.any_some,Option.any_some,fills]
      rfl

def rank : List Bool → Nat
  | [] => 0
  | bit :: rest => (if bit then 2 ^ rest.length else 0) + rank rest

theorem rank_lt (bits : List Bool) : rank bits < 2 ^ bits.length := by
  induction bits with
  | nil => decide
  | cons bit rest ih =>
    rw [rank,List.length_cons,Nat.pow_succ]
    split_ifs <;> omega

theorem rank_append_lt (front first second : List Bool) (size : second.length = first.length) :
    rank (front ++ false :: second) < rank (front ++ true :: first) := by
  induction front with
  | nil =>
    have small := rank_lt second
    rw [size] at small
    simp only [List.nil_append,rank,Bool.false_eq_true,if_false,if_true]
    omega
  | cons bit front ih =>
    simp only [List.cons_append,rank,List.length_append,List.length_cons,size]
    omega

def grow (place amount offset : Nat) : Nat := if offset ≤ place then offset else offset + amount

theorem grow_injective (place amount x y : Nat) (same : grow place amount x = grow place amount y) : x = y := by
  unfold grow at same
  split_ifs at same <;> omega

theorem tagsFrom_before (tokens : List Token) (offset place amount : Nat)
    (inside : offset + byteLength (renderAll tokens) ≤ place) :
    (tagsFrom offset tokens).map (·.shift (grow place amount)) = tagsFrom offset tokens := by
  induction tokens generalizing offset with
  | nil => rfl
  | cons token rest ih =>
    rw [renderAll_cons,byteLength_append] at inside
    have here : ∀ tag, token.tag? offset = some tag → tag.shift (grow place amount) = tag := by
      intro tag made
      rcases token.tag?_cases offset offset with ⟨none,_⟩ | ⟨one,_,first,_,_,_,_,start,stop,_⟩
      · rw [none] at made
        contradiction
      · obtain rfl := Option.some.inj (first.symm.trans made)
        have starts : grow place amount one.start = one.start := if_pos (by omega)
        have stops : grow place amount one.stop = one.stop := if_pos (by omega)
        rw [Tag.shift,starts,stops]
    rw [tagsFrom,List.map_append,ih _ (by omega)]
    cases made : token.tag? offset with
    | none => rfl
    | some tag => rw [Option.toList_some,List.map_singleton,here tag made]

theorem tagsFrom_after (tokens : List Token) (offset place amount : Nat) (beyond : place < offset) :
    (tagsFrom offset tokens).map (·.shift (grow place amount)) = tagsFrom (offset + amount) tokens := by
  induction tokens generalizing offset with
  | nil => rfl
  | cons token rest ih =>
    have here : (token.tag? offset).map (·.shift (grow place amount)) = token.tag? (offset + amount) := by
      have starts : grow place amount offset = offset + amount := if_neg (by omega)
      have stops (size : Nat) : grow place amount (offset + size) = offset + amount + size := by
        rw [grow,if_neg (by omega)]
        omega
      cases token <;> simp [Token.tag?,Tag.shift,starts,stops]
    rw [tagsFrom,tagsFrom,List.map_append,ih _ (by omega),← here,Nat.add_right_comm]
    cases token.tag? offset <;> rfl

theorem outlineNodes_grow (before rest : List Token) (tag : PlainTag) (amount : Nat) :
    let start := byteLength (renderAll before)
    let length := byteLength (renderAll (before ++ .opening tag :: rest)) + amount
    (outlineNodes (renderAll (before ++ .opening tag :: rest))).map (·.shift (grow start amount)) =
      (((({} : Outline).readTokens length 0 before).read length ⟨.opening tag.slash,tag.label,start,
        start + byteLength tag.render + amount,true⟩).readTokens length
          (start + byteLength tag.render + amount) rest).nodes := by
  intro start length
  have some := (Token.opening tag).byteLength_render
  change 0 < byteLength tag.render at some
  have size : byteLength (renderAll (before ++ .opening tag :: rest)) =
      start + (byteLength tag.render + byteLength (renderAll rest)) := by
    rw [renderAll_append,byteLength_append,renderAll_cons,byteLength_append]
    rfl
  have whole : grow start amount (byteLength (renderAll (before ++ .opening tag :: rest))) = length :=
    if_neg (by omega)
  have tags : (tagsFrom 0 (before ++ .opening tag :: rest)).map (·.shift (grow start amount)) =
      tagsFrom 0 before ++ (⟨.opening tag.slash,tag.label,start,start + byteLength tag.render + amount,true⟩ ::
        tagsFrom (start + byteLength tag.render + amount) rest) := by
    have here : grow start amount start = start := if_pos (Nat.le_refl _)
    have stop : grow start amount (start + byteLength tag.render) = start + byteLength tag.render + amount :=
      if_neg (by omega)
    rw [tagsFrom_append,List.map_append,tagsFrom_before _ _ _ _ (by omega),Nat.zero_add]
    change tagsFrom 0 before ++ List.map _ (_ :: tagsFrom (start + byteLength tag.render) rest) = _
    rw [List.map_cons,tagsFrom_after _ _ _ _ (by omega)]
    simp only [Tag.shift]
    rw [here]
    change tagsFrom 0 before ++ (⟨_,_,start,grow start amount (start + byteLength tag.render),true⟩ :: _) = _
    rw [stop]
  have moved := Outline.shift_readAll (grow start amount)
    (byteLength (renderAll (before ++ .opening tag :: rest))) (tagsFrom 0 (before ++ .opening tag :: rest)) {}
  rw [whole,tags,List.foldl_append,List.foldl_cons] at moved
  rw [outlineNodes_renderAll]
  exact congrArg Outline.nodes moved

def looseRank (tokens : List Token) : Nat := rank (looseItems none (outlineNodes (renderAll tokens)))

theorem looseRank_changed (before rest : List Token) (tag changed : PlainTag) (name : changed.name = tag.name)
    (slash : changed.slash = tag.slash) :
    looseRank (before ++ .opening changed :: rest) = looseRank (before ++ .opening tag :: rest) := by
  have grown (small large : PlainTag) (name : large.name = small.name) (slash : large.slash = small.slash)
      (shorter : byteLength small.render ≤ byteLength large.render) :
      looseRank (before ++ .opening large :: rest) = looseRank (before ++ .opening small :: rest) := by
    obtain ⟨amount,size⟩ := Nat.exists_eq_add_of_le shorter
    have nodes := outlineNodes_grow before rest small amount
    have length : byteLength (renderAll (before ++ .opening large :: rest)) =
        byteLength (renderAll (before ++ .opening small :: rest)) + amount := by
      simp only [renderAll_append,renderAll_cons,byteLength_append,Token.render]
      omega
    have label : large.label = small.label := congrArg String.ofList name
    have same : outlineNodes (renderAll (before ++ .opening large :: rest)) =
        (outlineNodes (renderAll (before ++ .opening small :: rest))).map
          (·.shift (grow (byteLength (renderAll before)) amount)) := by
      rw [nodes,outlineNodes_renderAll,Outline.readTokens_append,Outline.readTokens_cons,Nat.zero_add,length]
      simp only [Token.tag?,Token.render,size,slash,label,Nat.add_assoc]
      rfl
    have flags := looseItems_shift (grow_injective (byteLength (renderAll before)) amount) none
      (outlineNodes (renderAll (before ++ .opening small :: rest)))
    rw [looseRank,looseRank,same]
    exact congrArg rank flags
  rcases Nat.le_total (byteLength tag.render) (byteLength changed.render) with shorter | longer
  · exact grown tag changed name slash shorter
  · exact (grown changed tag name.symm slash.symm longer).symm

theorem path_of_tokens (length : Nat) (tokens : List Token) :
    (∀ entry ∈ (({} : Outline).readTokens length 0 tokens).path,
        entry.index < (({} : Outline).readTokens length 0 tokens).nodes.length) ∧
      (listedAfter false tokens = true →
        (({} : Outline).readTokens length 0 tokens).path.head?.map (·.name) = some "ul") := by
  constructor
  · have start : Outline.EndsBy length (tagsFrom 0 tokens) {} := ⟨by simp,by simp⟩
    have named := (start.readAll (tagsFrom 0 tokens) fun _ => id).named
    intro entry member
    have bound := (List.getElem?_eq_some_iff.mp (named entry member)).1
    rwa [List.length_map] at bound
  · have start : ({} : Outline).EndsBetween tokens [] := ⟨by simp,by simp [listedAfter]⟩
    exact (start.readAll length rfl).list

@[simp, grind =] theorem opening_render (tag : PlainTag) : (Token.opening tag).render = tag.render := rfl

theorem outlineNodes_wrapped (before inside after : List Token) (tag : PlainTag) :
    let start := byteLength (renderAll before)
    let length := byteLength (renderAll (before ++ .opening tag :: (inside ++ after))) + 9
    outlineNodes (renderAll (wrapped before tag inside after)) =
      ((((({} : Outline).readTokens length 0 before).read length ⟨.opening false,"ul",start,start + 4,true⟩).read
        length ⟨.opening tag.slash,tag.label,start + 4,start + 4 + byteLength tag.render,true⟩).readTokens length
          (start + 4 + byteLength tag.render) (inside ++ listClose :: after)).nodes := by
  intro start length
  have list : byteLength listTag.render = 4 := by decide
  have total : byteLength (renderAll (wrapped before tag inside after)) = length := by
    simp only [wrapped,length,renderAll_append,renderAll_cons,byteLength_append,opening_render,list,
      byteLength_listClose]
    omega
  rw [outlineNodes_renderAll,total,wrapped,Outline.readTokens_append,Outline.readTokens_cons,
    Outline.readTokens_cons,Nat.zero_add]
  simp only [Token.tag?,opening_render,list]
  rfl

theorem parted_wrapped (before inside after : List Token) (tag : PlainTag) (item : asciiLower tag.label = "li")
    (listed : listedAfter false before = true) (node : Node) (k length : Nat)
    (index : k = (({} : Outline).readTokens length 0 before).nodes.length)
    (whole : length = byteLength (renderAll (before ++ .opening tag :: (inside ++ after))) + 9)
    (found : (outlineNodes (renderAll (before ++ .opening tag :: (inside ++ after))))[k]? = some node)
    (known : node.extent.isKnown = true)
    (stop : node.stop = byteLength (renderAll (before ++ .opening tag :: inside))) :
    ∃ first second, Outline.Parted k first second ∧
      first.nodes = (outlineNodes (renderAll (before ++ .opening tag :: (inside ++ after)))).map
        (·.shift (grow (byteLength (renderAll before)) 9)) ∧
      second.nodes = outlineNodes (renderAll (wrapped before tag inside after)) := by
  obtain ⟨outside,list⟩ := path_of_tokens length before
  have grown := outlineNodes_grow before (inside ++ after) tag 9
  have wraps := outlineNodes_wrapped before inside after tag
  dsimp only at grown wraps
  rw [← whole] at grown wraps
  have size : byteLength (renderAll (before ++ .opening tag :: inside)) =
      byteLength (renderAll before) + byteLength tag.render + byteLength (renderAll inside) := by
    grind
  have filled : 0 < byteLength tag.render := (Token.opening tag).byteLength_render
  have ends : (node.shift (grow (byteLength (renderAll before)) 9)).stop =
      byteLength (renderAll before) + byteLength tag.render + 9 + byteLength (renderAll inside) := by
    change grow _ _ node.stop = _
    rw [grow,if_neg (by omega)]
    omega
  have present := congrArg (·[k]?) grown
  rw [List.getElem?_map,found,Option.map_some] at present
  rw [wraps,grown]
  subst index
  cases slash : tag.slash with
  | false =>
    rw [slash] at present
    have beside := Outline.beside_start (list listed) outside length tag.label item
      (byteLength (renderAll before)) (byteLength (renderAll before) + byteLength tag.render + 9)
      (byteLength (renderAll before)) (byteLength (renderAll before) + 4) (byteLength (renderAll before) + 4)
      (byteLength (renderAll before) + 4 + byteLength tag.render)
    obtain ⟨content,rest,same,stops,parted⟩ := beside.readTokens length _
      (byteLength (renderAll before) + 4 + byteLength tag.render) (by omega) (inside ++ after) _ present.symm known
    obtain ⟨rfl,rfl⟩ := append_unique inside after content rest same (by omega)
    exact ⟨_,_,parted,rfl,rfl⟩
  | true =>
    rw [slash] at present
    have parted := Outline.parted_start (list listed) outside length tag.label item
      (byteLength (renderAll before)) (byteLength (renderAll before) + byteLength tag.render + 9)
      (byteLength (renderAll before)) (byteLength (renderAll before) + 4) (byteLength (renderAll before) + 4)
      (byteLength (renderAll before) + 4 + byteLength tag.render)
      (byteLength (renderAll before) + byteLength tag.render + 9)
    obtain ⟨past,empty⟩ := Outline.past_start (list listed) outside length tag.label item
      (byteLength (renderAll before)) (byteLength (renderAll before) + byteLength tag.render + 9)
    have last := empty _ ((past.readAll length _).2.symm.trans present.symm)
    have none : byteLength (renderAll inside) = byteLength (renderAll []) := by
      change byteLength (renderAll inside) = 0
      omega
    obtain ⟨rfl,_⟩ := append_unique inside after [] (inside ++ after) rfl none
    refine ⟨_,_,parted.readTokens length (byteLength (renderAll before) + byteLength tag.render + 9) after,rfl,?_⟩
    rw [List.nil_append,Outline.readTokens_listClose]
    have next : byteLength (renderAll before) + 4 + byteLength tag.render + 5 =
        byteLength (renderAll before) + byteLength tag.render + 9 := by omega
    rw [next]

theorem heads_renderAll (tokens : List Token) :
    (outlineNodes (renderAll tokens)).map Node.head = ((tagsFrom 0 tokens).filter Tag.isOpening).map Tag.head := by
  rw [outlineNodes_heads,lex_renderAll]

theorem openings_cons (tag : PlainTag) (rest : List Token) (offset : Nat) :
    (tagsFrom offset (.opening tag :: rest)).filter Tag.isOpening =
      ⟨.opening tag.slash,tag.label,offset,offset + byteLength tag.render,true⟩ ::
        (tagsFrom (offset + byteLength tag.render) rest).filter Tag.isOpening := rfl

theorem count_items (tokens : List Token) :
    ((outlineNodes (renderAll tokens)).map (·.name)).count "li" = tokens.countP Token.opensItem := by
  have counted (tokens : List Token) (offset : Nat) :
      (((tagsFrom offset tokens).filter Tag.isOpening).map fun tag => asciiLower tag.name).count "li" =
        tokens.countP Token.opensItem := by
    induction tokens generalizing offset with
    | nil => rfl
    | cons token rest ih =>
      rw [List.countP_cons]
      cases token with
      | text chars nonempty plain => exact ih _
      | markup body plain ended inside => exact ih _
      | opening tag => rw [openings_cons,List.map_cons,List.count_cons,ih,Token.opensItem]
      | closing name letter written foreign => exact ih _
  have names : (outlineNodes (renderAll tokens)).map (·.name) =
      ((tagsFrom 0 tokens).filter Tag.isOpening).map fun tag => asciiLower tag.name := by
    have heads := congrArg (List.map Prod.fst) (heads_renderAll tokens)
    simpa [List.map_map,Function.comp_def,Node.head,Tag.head] using heads
  rw [names,counted]

theorem head_at (before rest : List Token) (tag : PlainTag) (length : Nat) :
    ((outlineNodes (renderAll (before ++ .opening tag :: rest)))[(({} : Outline).readTokens length 0
      before).nodes.length]?).map Node.head = some (asciiLower tag.label,byteLength (renderAll before),
        byteLength (renderAll before) + byteLength tag.render) := by
  have front := Outline.map_head_readAll length (tagsFrom 0 before) {}
  have size := congrArg List.length front
  simp only [List.map_nil,List.nil_append,List.length_map] at size
  rw [← List.getElem?_map,heads_renderAll,tagsFrom_append,List.filter_append,List.map_append,
    List.getElem?_append_right (by rw [List.length_map,← size]; exact Nat.le_refl _),List.length_map,← size]
  rw [openings_cons,Outline.readTokens,Nat.sub_self,List.map_cons,List.getElem?_cons_zero,Nat.zero_add]
  rfl

theorem heads_wrapped (before inside after : List Token) (tag : PlainTag) (item : asciiLower tag.label = "li")
    (length : Nat) (list inner : Node)
    (found : (outlineNodes (renderAll (wrapped before tag inside after)))[(({} : Outline).readTokens length 0
      before).nodes.length]? = some list)
    (present : (outlineNodes (renderAll (wrapped before tag inside after)))[(({} : Outline).readTokens length 0
      before).nodes.length + 1]? = some inner) :
    list.name = "ul" ∧ inner.name = "li" ∧ list.openStop = inner.start := by
  have index : (({} : Outline).readTokens length 0 (before ++ [.opening listTag])).nodes.length =
      (({} : Outline).readTokens length 0 before).nodes.length + 1 := by
    rw [Outline.readTokens_append]
    have heads := congrArg List.length (Outline.map_head_readAll length (tagsFrom (0 + byteLength (renderAll
      before)) [.opening listTag]) (({} : Outline).readTokens length 0 before))
    rw [List.length_append,List.length_map,List.length_map,List.length_map] at heads
    exact heads
  have size : byteLength (renderAll (before ++ [.opening listTag])) =
      byteLength (renderAll before) + byteLength listTag.render := by
    simp [renderAll]
  have outer := head_at before (.opening tag :: (inside ++ listClose :: after)) listTag length
  have within := head_at (before ++ [.opening listTag]) (inside ++ listClose :: after) tag length
  rw [index,List.append_assoc,List.singleton_append] at within
  change Option.map Node.head ((outlineNodes (renderAll (wrapped before tag inside after)))[_]?) = _ at outer within
  rw [found,Option.map_some,Option.some.injEq,Node.head,Prod.mk.injEq,Prod.mk.injEq] at outer
  rw [present,Option.map_some,Option.some.injEq,Node.head,Prod.mk.injEq,Prod.mk.injEq] at within
  have label : asciiLower listTag.label = "ul" := by decide
  refine ⟨outer.1.trans label,within.1.trans item,?_⟩
  rw [outer.2.2,within.2.1,size]

theorem looseRank_wrapped (before inside after : List Token) (tag : PlainTag) (item : asciiLower tag.label = "li")
    (listed : listedAfter false before = true) (earlier later : List Node) (node : Node)
    (parts : outlineNodes (renderAll (before ++ .opening tag :: (inside ++ after))) = earlier ++ node :: later)
    (start : node.start = byteLength (renderAll before)) (known : node.extent.isKnown = true)
    (stop : node.stop = byteLength (renderAll (before ++ .opening tag :: inside)))
    (loose : earlier.getLast?.any node.fills = false) :
    looseRank (wrapped before tag inside after) < looseRank (before ++ .opening tag :: (inside ++ after)) := by
  let length := byteLength (renderAll (before ++ .opening tag :: (inside ++ after))) + 9
  have here := head_at before (inside ++ after) tag length
  generalize index : (({} : Outline).readTokens length 0 before).nodes.length = k at here
  have place : (outlineNodes (renderAll (before ++ .opening tag :: (inside ++ after))))[earlier.length]? =
      some node := by
    rw [parts]
    simp
  obtain ⟨same,found,head⟩ := Option.map_eq_some_iff.mp here
  have forest := outlineNodes_forest (renderAll (before ++ .opening tag :: (inside ++ after)))
  have begins : same.start = node.start := (congrArg (·.2.1) head).trans start.symm
  obtain rfl : earlier.length = k := forest.index_of_start place found begins.symm
  obtain rfl := Option.some.inj (found.symm.trans place)
  have name : same.name = "li" := (congrArg (·.1) head).trans item
  obtain ⟨first,second,parted,firstNodes,secondNodes⟩ := parted_wrapped before inside after tag item listed same
    _ length index.symm rfl place known stop
  have outerBound := parted.alone.list.1
  have innerBound := parted.alone.item.1
  have front : second.nodes.take earlier.length = earlier.map (·.shift (grow (byteLength (renderAll before)) 9)) := by
    apply List.ext_getElem?
    intro i
    rw [List.getElem?_take]
    split_ifs with bound
    · rw [parted.mirrors.nodes i bound,firstNodes,parts,List.map_append,
        List.getElem?_append_left (by rwa [List.length_map])]
    · rw [List.getElem?_eq_none (by rw [List.length_map]; omega)]
  have split : second.nodes = earlier.map (·.shift (grow (byteLength (renderAll before)) 9)) ++
      second.nodes[earlier.length] :: second.nodes[earlier.length + 1] ::
        second.nodes.drop (earlier.length + 1 + 1) := by
    rw [← front,← List.drop_eq_getElem_cons innerBound,← List.drop_eq_getElem_cons outerBound,
      List.take_append_drop]
  have list := List.getElem?_eq_getElem outerBound
  have inner := List.getElem?_eq_getElem innerBound
  have ends := parted.alone.ends _ _ list inner
  generalize second.nodes[earlier.length] = outer at *
  generalize second.nodes[earlier.length + 1] = within at *
  generalize second.nodes.drop (earlier.length + 1 + 1) = rest at split
  rw [← index,secondNodes] at list inner
  obtain ⟨outerName,innerName,touches⟩ := heads_wrapped before inside after tag item length outer within list inner
  have filled : within.fills outer = true := by simp [Node.fills,outerName,touches,ends]
  have kept := looseItems_shift (grow_injective (byteLength (renderAll before)) 9) none earlier
  rw [Option.map_none] at kept
  have now : looseItems none (outlineNodes (renderAll (wrapped before tag inside after))) =
      looseItems none earlier ++ false :: looseItems (some within) rest := by
    rw [← secondNodes,split,looseItems_append,kept]
    simp [looseItems,outerName,innerName,filled]
  have old : looseItems none (outlineNodes (renderAll (before ++ .opening tag :: (inside ++ after)))) =
      looseItems none earlier ++ true :: looseItems (some same) later := by
    rw [parts,looseItems_append,Option.or_none]
    simp [looseItems,name,loose]
  have items : (wrapped before tag inside after).countP Token.opensItem =
      (before ++ .opening tag :: (inside ++ after)).countP Token.opensItem := by
    have list : Token.opensItem (.opening listTag) = false := by decide
    have close : Token.opensItem listClose = false := by decide
    simp [wrapped,List.countP_append,List.countP_cons,list,close,Nat.add_assoc]
  have size : (looseItems none (outlineNodes (renderAll (wrapped before tag inside after)))).length =
      (looseItems none (outlineNodes (renderAll (before ++ .opening tag :: (inside ++ after))))).length := by
    rw [length_looseItems,length_looseItems,count_items,count_items,items]
  rw [now,old] at size
  simp only [List.length_append,List.length_cons] at size
  rw [looseRank,looseRank,now,old]
  exact rank_append_lt _ _ _ (by omega)

end AccessibleMarkup.Markup
