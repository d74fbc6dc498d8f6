import AccessibleMarkup.Proofs.LooseItems
import AccessibleMarkup.Proofs.TagPlaces
import Mathlib.Data.List.Induction

/-! An item that directly follows the tag of a list and is put into a list of its own. The text is read
with and without the new list side by side. As long as the item is open the two outlines differ only in
the new list. The list ends where the item ends, and from there on the outlines are alike. -/
namespace AccessibleMarkup.Markup

open Text

namespace Outline

theorem endAll_nil (nodes : List Node) (offset : Nat) (extent : OpenNode → Extent) :
    endAll nodes [] offset extent = nodes := rfl

/-- An element in a list that has ended where the element has. -/
structure Alone (k : Nat) (outline : Outline) : Prop where
  list : outline.Past k
  item : outline.Past (k + 1)
  ends : ∀ outer inner, outline.nodes[k]? = some outer → outline.nodes[k + 1]? = some inner →
    outer.closeStart = inner.stop

/-- The outlines are alike but for an element that has a list of its own in the second one. -/
structure Parted (k : Nat) (first second : Outline) : Prop where
  mirrors : Mirrors k first second
  alone : Alone k second

variable {k : Nat} {first second : Outline}

theorem Alone.keep (alone : Alone k second) {next : Outline} (list : Keeps k second next)
    (item : Keeps (k + 1) second next) : Alone k next := by
  refine ⟨list.1,item.1,fun outer inner found present => ?_⟩
  rw [list.2] at found
  rw [item.2] at present
  exact alone.ends outer inner found present

theorem Alone.readAll (alone : Alone k second) (length : Nat) (tags : List Tag) :
    Alone k (tags.foldl (read length) second) :=
  alone.keep (alone.list.readAll length tags) (alone.item.readAll length tags)

theorem Parted.readTokens (parted : Parted k first second) (length offset : Nat) (tokens : List Token) :
    Parted k (first.readTokens length offset tokens) (second.readTokens length offset tokens) :=
  ⟨parted.mirrors.readAll length _,parted.alone.readAll length _⟩

/-- Open elements in the content of the item. -/
structure Inner (k : Nat) (first second : OpenNode) : Prop where
  name : first.name = second.name
  first : k < first.index
  second : k + 1 < second.index

theorem inner_names {left right : List OpenNode} (inner : List.Forall₂ (Inner k) left right) :
    left.map (·.name) = right.map (·.name) := by
  induction inner with
  | nil => rfl
  | cons here _ ih => rw [List.map_cons,List.map_cons,here.name,ih]

theorem inner_beyond {left right : List OpenNode} (inner : List.Forall₂ (Inner k) left right) :
    (∀ entry ∈ left, k < entry.index) ∧ ∀ entry ∈ right, k + 1 < entry.index := by
  induction inner with
  | nil => simp
  | cons here _ ih => simpa using ⟨⟨here.first,ih.1⟩,here.second,ih.2⟩

/-- The item is open in both outlines, and in the second one in its new list. -/
structure Beside (k : Nat) (outer : List OpenNode) (first second : Outline) : Prop where
  nodes : ∀ i < k, second.nodes[i]? = first.nodes[i]?
  size : k < first.nodes.length ∧ k + 1 < second.nodes.length
  pending : ∀ node, first.nodes[k]? = some node → node.extent = .unterminated
  owed : first.owed = second.owed
  path : ∃ inner within, first.path = inner ++ ⟨k,"li"⟩ :: outer ∧
    second.path = within ++ ⟨k + 1,"li"⟩ :: ⟨k,"ul"⟩ :: outer ∧ List.Forall₂ (Inner k) inner within
  outside : ∀ entry ∈ outer, entry.index < k
  list : outer.head?.map (·.name) = some "ul"

variable {outer : List OpenNode}

theorem Beside.endSibling (beside : Beside k outer first second) (name : String) (start offset : Nat)
    (other : first.path.head? = some ⟨k,"li"⟩ → name ≠ "li") :
    Beside k outer (first.endSibling name start) (second.endSibling name offset) := by
  obtain ⟨nodes,path,owed⟩ := first
  obtain ⟨others,follows,debts⟩ := second
  obtain ⟨same,size,pending,debt,⟨inner,within,rfl,rfl,all⟩,outside,list⟩ := beside
  dsimp only at same size pending debt other
  unfold Outline.endSibling
  cases all with
  | nil =>
    have apart : ¬ (isSelfEnding name && "li" == name) = true := by
      have differs := (other rfl).symm
      simp [differs]
    dsimp only [List.nil_append]
    rw [if_neg apart,if_neg apart]
    exact ⟨same,size,pending,debt,⟨[],[],rfl,rfl,.nil⟩,outside,list⟩
  | @cons one twin inner within here rest =>
    dsimp only [List.cons_append]
    rw [here.name]
    split_ifs
    · have left := here.first
      have right := here.second
      refine ⟨fun i bound => ?_,by simpa using size,fun node found => ?_,debt,
        ⟨_,_,rfl,rfl,rest⟩,outside,list⟩
      · rw [getElem?_endAll _ _ _ _ _ (by simp; omega),getElem?_endAll _ _ _ _ _ (by simp; omega),same i bound]
      · rw [getElem?_endAll _ _ _ _ _ (by simp; omega)] at found
        exact pending node found
    · exact ⟨same,size,pending,debt,⟨_,_,rfl,rfl,.cons here rest⟩,outside,list⟩

theorem Beside.enter (beside : Beside k outer first second) (length size : Nat) (tag copy : Tag)
    (selfClosing : Bool) (name : copy.name = tag.name) (terminated : copy.terminated = tag.terminated) :
    Beside k outer (first.enter length tag selfClosing) (second.enter size copy selfClosing) := by
  obtain ⟨inner,within,path,follows,all⟩ := beside.path
  obtain ⟨left,right⟩ := beside.size
  have holds : hasContent copy selfClosing (asciiLower tag.name) =
      hasContent tag selfClosing (asciiLower tag.name) := by
    rw [hasContent,hasContent,terminated]
  refine ⟨fun i bound => ?_,?_,fun node found => ?_,beside.owed,?_,beside.outside,beside.list⟩
  · simp only [Outline.enter]
    rw [List.getElem?_append_left (by omega),List.getElem?_append_left (by omega),beside.nodes i bound]
  · simp only [Outline.enter,List.length_append]
    omega
  · simp only [Outline.enter] at found
    rw [List.getElem?_append_left left] at found
    exact beside.pending node found
  · simp only [Outline.enter,name,holds]
    split_ifs
    · refine ⟨⟨first.nodes.length,asciiLower tag.name⟩ :: inner,
        ⟨second.nodes.length,asciiLower tag.name⟩ :: within,?_,?_,.cons ⟨rfl,left,right⟩ all⟩
      · rw [path,List.cons_append]
      · rw [follows,List.cons_append]
    · exact ⟨inner,within,path,follows,all⟩

theorem Beside.closeInner (beside : Beside k outer first second) (tag copy : Tag) (name : copy.name = tag.name)
    {inner within : List OpenNode} (path : first.path = inner ++ ⟨k,"li"⟩ :: outer)
    (follows : second.path = within ++ ⟨k + 1,"li"⟩ :: ⟨k,"ul"⟩ :: outer)
    (all : List.Forall₂ (Inner k) inner within) {front back : List OpenNode} {closed : OpenNode}
    (parts : inner = front ++ closed :: back) (named : closed.name = asciiLower tag.name)
    (others : Avoids (asciiLower tag.name) front) :
    Beside k outer (first.readClosing tag) (second.readClosing copy) := by
  subst parts
  obtain ⟨left,twin,right,rfl,before,here,after⟩ := split_forall₂ all
  have apart : Avoids (asciiLower copy.name) left := by
    rw [name]
    rwa [avoids_iff,← inner_names before,← avoids_iff]
  have beyond := inner_beyond before
  have below := here.first
  have under := here.second
  rw [readClosing_found first tag front (back ++ ⟨k,"li"⟩ :: outer) closed (by simp [path]) named others,
    readClosing_found second copy left (right ++ ⟨k + 1,"li"⟩ :: ⟨k,"ul"⟩ :: outer) twin (by simp [follows])
      (by rw [name,← here.name,named]) apart]
  refine ⟨fun i bound => ?_,by simpa using beside.size,fun node found => ?_,?_,
    ⟨back,right,rfl,rfl,after⟩,beside.outside,beside.list⟩
  · dsimp only
    rw [getElem?_modify_of_ne _ (by omega),getElem?_modify_of_ne _ (by omega),
      getElem?_endAll _ _ _ _ _ fun entry member => by have := beyond.2 entry member; omega,
      getElem?_endAll _ _ _ _ _ fun entry member => by have := beyond.1 entry member; omega,
      beside.nodes i bound]
  · dsimp only at found
    rw [getElem?_modify_of_ne _ (by omega),
      getElem?_endAll _ _ _ _ _ fun entry member => by have := beyond.1 entry member; omega] at found
    exact beside.pending node found
  · dsimp only
    rw [cutOff_eq,cutOff_eq,inner_names before,beside.owed]

theorem Beside.closeItem (beside : Beside k outer first second) (tag copy close : Tag)
    (name : copy.name = tag.name) (item : asciiLower tag.name = "li") (list : asciiLower close.name = "ul")
    (next : close.start = copy.stop) {inner within : List OpenNode}
    (path : first.path = inner ++ ⟨k,"li"⟩ :: outer)
    (follows : second.path = within ++ ⟨k + 1,"li"⟩ :: ⟨k,"ul"⟩ :: outer)
    (all : List.Forall₂ (Inner k) inner within) (others : Avoids "li" inner) :
    Parted k (first.readClosing tag) ((second.readClosing copy).readClosing close) := by
  have apart : Avoids "li" within := by rwa [avoids_iff,← inner_names all,← avoids_iff]
  have beyond := inner_beyond all
  have outside := beside.outside
  have size := beside.size
  have once := readClosing_found second copy within (⟨k,"ul"⟩ :: outer) ⟨k + 1,"li"⟩ follows
    (by rw [name,item]) (by rwa [name,item])
  have twice := readClosing_found (second.readClosing copy) close [] outer ⟨k,"ul"⟩ (by rw [once]; rfl)
    list.symm (by simp [Avoids])
  rw [readClosing_found first tag inner outer ⟨k,"li"⟩ path item.symm (by rwa [item]),twice,once]
  refine ⟨⟨fun i bound => ?_,?_,twins_refl outer,?_⟩,⟨?_,?_⟩,⟨?_,?_⟩,fun list item found present => ?_⟩
  · dsimp only
    rw [endAll_nil,getElem?_modify_of_ne _ (by omega),getElem?_modify_of_ne _ (by omega),
      getElem?_modify_of_ne _ (by omega),
      getElem?_endAll _ _ _ _ _ fun entry member => by have := beyond.2 entry member; omega,
      getElem?_endAll _ _ _ _ _ fun entry member => by have := beyond.1 entry member; omega,
      beside.nodes i bound]
  · simp only [List.length_modify,length_endAll]
    omega
  · dsimp only
    rw [cutOff_eq,cutOff_eq,cutOff_eq,inner_names all,beside.owed]
    exact List.Perm.refl _
  · simp only [List.length_modify,length_endAll]
    omega
  · exact fun entry member => by have := outside entry member; omega
  · simp only [List.length_modify,length_endAll]
    omega
  · exact fun entry member => by have := outside entry member; omega
  · obtain ⟨_,_,rfl⟩ := getElem?_modify_some found
    obtain ⟨_,kept,rfl⟩ := getElem?_modify_some present
    rw [endAll_nil] at kept
    obtain ⟨_,_,rfl⟩ := getElem?_modify_some kept
    simp [Node.closeWith,next]

theorem listed_apart : "li" ≠ "ul" := by decide

theorem Beside.closeList (beside : Beside k outer first second) (close : Tag) (list : asciiLower close.name = "ul")
    {inner within : List OpenNode} (follows : second.path = within ++ ⟨k + 1,"li"⟩ :: ⟨k,"ul"⟩ :: outer)
    (all : List.Forall₂ (Inner k) inner within) (others : Avoids "ul" within) :
    (∀ i < k, (second.readClosing close).nodes[i]? = first.nodes[i]?) ∧
      (second.readClosing close).path = outer ∧
      (second.readClosing close).owed = cutOff (within ++ [⟨k + 1,"li"⟩]) ++ first.owed ∧
      Alone k (second.readClosing close) := by
  have beyond := (inner_beyond all).2
  have outside := beside.outside
  have size := beside.size
  have apart : Avoids "ul" (within ++ [⟨k + 1,"li"⟩]) := by
    intro entry member
    rcases List.mem_append.mp member with inside | item
    · exact others entry inside
    · rw [List.mem_singleton.mp item]
      exact listed_apart
  rw [readClosing_found second close (within ++ [⟨k + 1,"li"⟩]) outer ⟨k,"ul"⟩ (by simp [follows]) list.symm
    (by rwa [list])]
  refine ⟨fun i bound => ?_,rfl,by rw [beside.owed],⟨?_,?_⟩,⟨?_,?_⟩,fun outer inner found present => ?_⟩
  · dsimp only
    rw [getElem?_modify_of_ne _ (by omega),getElem?_endAll,beside.nodes i bound]
    intro entry member
    rcases List.mem_append.mp member with inside | item
    · have := beyond entry inside
      omega
    · rw [List.mem_singleton.mp item]
      dsimp only
      omega
  · simp only [List.length_modify,length_endAll]
    omega
  · exact fun entry member => by have := outside entry member; omega
  · simp only [List.length_modify,length_endAll]
    omega
  · exact fun entry member => by have := outside entry member; omega
  · obtain ⟨_,_,rfl⟩ := getElem?_modify_some found
    rw [getElem?_modify_of_ne _ (by dsimp only; omega)] at present
    obtain ⟨_,_,_,_,rfl⟩ := endAll_ended _ _ _ _ _ _ present ⟨⟨k + 1,"li"⟩,by simp,rfl⟩
    simp [Node.closeWith,Node.endAt]

theorem Beside.closeNested (beside : Beside k outer first second) (close : Tag)
    (list : asciiLower close.name = "ul") {inner left right : List OpenNode} {twin : OpenNode}
    (follows : second.path = (left ++ twin :: right) ++ ⟨k + 1,"li"⟩ :: ⟨k,"ul"⟩ :: outer)
    (all : List.Forall₂ (Inner k) inner (left ++ twin :: right)) (nearest : twin.name = "ul")
    (others : Avoids "ul" left) :
    (∀ i < k, (second.readClosing close).nodes[i]? = first.nodes[i]?) ∧
      (second.readClosing close).path = (right ++ [⟨k + 1,"li"⟩,⟨k,"ul"⟩]) ++ outer ∧
      (second.readClosing close).owed = cutOff left ++ first.owed ∧
      (second.readClosing close).nodes.length = second.nodes.length := by
  have beyond := (inner_beyond all).2
  have here := beyond twin (by simp)
  rw [readClosing_found second close left (right ++ ⟨k + 1,"li"⟩ :: ⟨k,"ul"⟩ :: outer) twin (by simp [follows])
    (by rw [nearest,list]) (by rwa [list])]
  refine ⟨fun i bound => ?_,by simp,by rw [beside.owed],by simp⟩
  dsimp only
  rw [getElem?_modify_of_ne _ (by omega),getElem?_endAll,beside.nodes i bound]
  intro entry member
  have := beyond entry (by simp [member])
  omega

theorem endSibling_item (outline : Outline) (path : outline.path = ⟨k,"li"⟩ :: outer) (offset : Nat) :
    outline.endSibling "li" offset =
      ⟨endAll outline.nodes [⟨k,"li"⟩] offset fun _ => .implied,outer,outline.owed⟩ := by
  have loose : isSelfEnding "li" = true := by decide
  exact endSibling_ends outline path loose rfl offset

theorem endSibling_listed (outline : Outline) (list : outline.path.head?.map (·.name) = some "ul") (offset : Nat) :
    outline.endSibling "li" offset = outline := by
  refine endSibling_stays outline (fun top first _ same => ?_) offset
  rw [first,Option.map_some,same] at list
  exact absurd list (by decide)

theorem Beside.endBySibling (beside : Beside k outer first second) (length : Nat) (tag close : Tag)
    (selfClosing : Bool) (kind : tag.kind = .opening selfClosing) (item : asciiLower tag.name = "li")
    (list : asciiLower close.name = "ul") (path : first.path = ⟨k,"li"⟩ :: outer)
    (follows : second.path = ⟨k + 1,"li"⟩ :: ⟨k,"ul"⟩ :: outer) :
    Parted k (first.read length tag) ((second.readClosing close).read length tag) := by
  obtain ⟨nodes,open_,owed,alone⟩ := beside.closeList close list follows .nil (by simp [Avoids])
  have passed := endSibling_listed (second.readClosing close) (by rw [open_]; exact beside.list) tag.start
  have mirrors : Mirrors k (first.endSibling "li" tag.start) (second.readClosing close) := by
    rw [endSibling_item first path]
    refine ⟨fun i bound => ?_,⟨?_,Nat.le_of_lt alone.list.1⟩,by rw [open_]; exact twins_refl outer,?_⟩
    · rw [nodes i bound]
      symm
      apply getElem?_endAll
      intro entry member
      rw [List.mem_singleton.mp member]
      dsimp only
      omega
    · rw [length_endAll]
      exact Nat.le_of_lt beside.size.1
    · rw [owed]
      exact List.Perm.refl _
  have read (outline : Outline) : outline.read length tag =
      (outline.endSibling "li" tag.start).enter length tag selfClosing := by
    rw [read_of_opening kind,item]
  refine ⟨?_,alone.readAll length [tag]⟩
  rw [read,read,passed]
  exact mirrors.enter length tag selfClosing

theorem cutOff_item (i : Nat) : cutOff [⟨i,"li"⟩] = [] := by
  have ends : isSelfEnding "li" = true := by decide
  simp [cutOff,ends]

@[simp] theorem cutOff_append (first second : List OpenNode) :
    cutOff (first ++ second) = cutOff first ++ cutOff second := by
  simp [cutOff]

/-- A closing tag of an element that is open in both outlines makes them alike, if what it ends before
that element comes after the first elements and was cut off in both. -/
theorem mirrors_readClosing (tag : Tag) {rest others front back : List OpenNode} {closed : OpenNode}
    (path : first.path = rest ++ (front ++ closed :: back))
    (follows : second.path = others ++ (front ++ closed :: back))
    (beyond : ∀ entry ∈ rest, k ≤ entry.index) (after : ∀ entry ∈ others, k ≤ entry.index)
    (named : closed.name = asciiLower tag.name) (apart : Avoids (asciiLower tag.name) (rest ++ front))
    (apartToo : Avoids (asciiLower tag.name) (others ++ front))
    (same : ∀ i < k, second.nodes[i]? = first.nodes[i]?)
    (size : k ≤ first.nodes.length ∧ k ≤ second.nodes.length)
    (owed : (cutOff rest ++ first.owed).Perm (cutOff others ++ second.owed)) :
    Mirrors k (first.readClosing tag) (second.readClosing tag) := by
  rw [readClosing_found first tag (rest ++ front) back closed (by simp [path]) named apart,
    readClosing_found second tag (others ++ front) back closed (by simp [follows]) named apartToo]
  have ended : ∀ i < k, (endAll second.nodes others tag.start innerExtent)[i]? =
      (endAll first.nodes rest tag.start innerExtent)[i]? := by
    intro i bound
    rw [getElem?_endAll _ _ _ _ _ fun entry member => by have := after entry member; omega,
      getElem?_endAll _ _ _ _ _ fun entry member => by have := beyond entry member; omega,same i bound]
  refine ⟨?_,by simpa using size,twins_refl back,?_⟩
  · rw [endAll_append,endAll_append]
    exact modify_twins (endAll_twins ended (twins_refl front) _ _ innerExtent_named) (Twins.refl closed) _
  · rw [List.perm_iff_count] at owed ⊢
    intro name
    have counts := owed name
    simp only [cutOff_append,List.count_append] at counts ⊢
    omega

theorem cutOff_nested {inner left right : List OpenNode} {twin : OpenNode} (all : List.Forall₂ (Inner k) inner
    (left ++ twin :: right)) (nearest : twin.name = "ul") :
    (cutOff (inner ++ [⟨k,"li"⟩])).Perm (cutOff (right ++ [⟨k + 1,"li"⟩,⟨k,"ul"⟩]) ++ cutOff left) := by
  have stays : isSelfEnding "ul" = false := by decide
  have ends : isSelfEnding "li" = true := by decide
  have cut : cutOff inner = cutOff left ++ "ul" :: cutOff right := by
    rw [cutOff_eq,inner_names all,← cutOff_eq,cutOff_append]
    simp [cutOff,nearest,stays]
  have last : cutOff [⟨k + 1,"li"⟩,⟨k,"ul"⟩] = ["ul"] := by simp [cutOff,ends,stays]
  rw [cutOff_append,cutOff_item,cutOff_append,last,cut,List.perm_iff_count]
  intro name
  simp only [List.count_append,List.count_cons,List.count_nil]
  omega

/-- Where a list is open in the item, the closing tag of the list around the item is taken for its own. The
closing tag of an element around them ends the item and both lists. -/
theorem Beside.endAround_nested (beside : Beside k outer first second) (tag close : Tag)
    (list : asciiLower close.name = "ul") {inner left right : List OpenNode} {twin : OpenNode}
    (path : first.path = inner ++ ⟨k,"li"⟩ :: outer)
    (follows : second.path = (left ++ twin :: right) ++ ⟨k + 1,"li"⟩ :: ⟨k,"ul"⟩ :: outer)
    (all : List.Forall₂ (Inner k) inner (left ++ twin :: right)) (nearest : twin.name = "ul")
    (others : Avoids "ul" left) (far : Avoids (asciiLower tag.name) (left ++ twin :: right))
    (item : "li" ≠ asciiLower tag.name) {front back : List OpenNode} {closed : OpenNode}
    (parts : outer = front ++ closed :: back) (named : closed.name = asciiLower tag.name)
    (below : ∀ entry ∈ inner ++ [⟨k,"li"⟩], k ≤ entry.index)
    (apart : Avoids (asciiLower tag.name) ((inner ++ [⟨k,"li"⟩]) ++ front)) :
    Parted k (first.readClosing tag) ((second.readClosing close).readClosing tag) := by
  obtain ⟨nodes,open_,owed,same⟩ := beside.closeNested close list follows all nearest others
  have after := (inner_beyond all).2
  have outside := beside.outside
  have size := beside.size
  have other : "ul" ≠ asciiLower tag.name := by
    rw [← nearest]
    exact far twin (by simp)
  have farToo : ∀ entry ∈ right ++ [⟨k + 1,"li"⟩,⟨k,"ul"⟩], k ≤ entry.index := by
    intro entry member
    rcases List.mem_append.mp member with inside | item
    · have := after entry (by simp [inside])
      omega
    · simp only [List.mem_cons,List.not_mem_nil,or_false] at item
      rcases item with rfl | rfl
      · exact Nat.le_succ k
      · exact Nat.le_refl k
  have inside : Avoids (asciiLower tag.name) right := fun entry member => far entry (by simp [member])
  have between : Avoids (asciiLower tag.name) front := fun entry member => apart entry (by simp [member])
  have apartToo : Avoids (asciiLower tag.name) ((right ++ [⟨k + 1,"li"⟩,⟨k,"ul"⟩]) ++ front) := by
    simpa [Avoids,or_imp,forall_and,item,other] using ⟨inside,between⟩
  have rest : first.path = (inner ++ [⟨k,"li"⟩]) ++ (front ++ closed :: back) := by simp [path,parts]
  have going : (second.readClosing close).path =
      (right ++ [⟨k + 1,"li"⟩,⟨k,"ul"⟩]) ++ (front ++ closed :: back) := by rw [open_,parts]
  refine ⟨mirrors_readClosing tag rest going below farToo named apart apartToo nodes ⟨by omega,by omega⟩ ?_,?_⟩
  · rw [owed,← List.append_assoc]
    exact (cutOff_nested all nearest).append_right _
  · -- The item and its list end together.
    have bounds : ∀ entry ∈ back, entry.index < k := fun entry member => outside entry (by simp [parts,member])
    have lower : closed.index < k := outside closed (by simp [parts])
    rw [readClosing_found _ tag _ back closed (by simp [going]) named apartToo]
    refine ⟨⟨?_,?_⟩,⟨?_,?_⟩,fun list item found present => ?_⟩
    · simp only [List.length_modify,length_endAll]
      omega
    · exact fun entry member => by have := bounds entry member; omega
    · simp only [List.length_modify,length_endAll]
      omega
    · exact fun entry member => by have := bounds entry member; omega
    · rw [getElem?_modify_of_ne _ (by omega)] at found present
      obtain ⟨_,_,_,_,rfl⟩ := endAll_ended _ _ _ _ _ _ found ⟨⟨k,"ul"⟩,by simp,rfl⟩
      obtain ⟨_,_,_,_,rfl⟩ := endAll_ended _ _ _ _ _ _ present ⟨⟨k + 1,"li"⟩,by simp,rfl⟩
      rfl

theorem Beside.endAround (beside : Beside k outer first second) (tag close : Tag)
    (list : asciiLower close.name = "ul") {inner within : List OpenNode}
    (path : first.path = inner ++ ⟨k,"li"⟩ :: outer)
    (follows : second.path = within ++ ⟨k + 1,"li"⟩ :: ⟨k,"ul"⟩ :: outer)
    (all : List.Forall₂ (Inner k) inner within) (others : Avoids (asciiLower tag.name) inner)
    (item : "li" ≠ asciiLower tag.name) {front back : List OpenNode} {closed : OpenNode}
    (parts : outer = front ++ closed :: back) (named : closed.name = asciiLower tag.name)
    (between : Avoids (asciiLower tag.name) front) :
    Parted k (first.readClosing tag) ((second.readClosing close).readClosing tag) := by
  obtain ⟨beyond,_⟩ := inner_beyond all
  have size := beside.size
  have names := inner_names all
  have rest : first.path = (inner ++ [⟨k,"li"⟩]) ++ (front ++ closed :: back) := by simp [path,parts]
  have below : ∀ entry ∈ inner ++ [⟨k,"li"⟩], k ≤ entry.index := by
    intro entry member
    rcases List.mem_append.mp member with inside | item
    · exact Nat.le_of_lt (beyond entry inside)
    · rw [List.mem_singleton.mp item]
  have far : Avoids (asciiLower tag.name) within := by rwa [avoids_iff,← names,← avoids_iff]
  have apart : Avoids (asciiLower tag.name) ((inner ++ [⟨k,"li"⟩]) ++ front) := by
    simpa [Avoids,or_imp,forall_and,item] using ⟨others,between⟩
  rcases split_path within "ul" with ⟨left,twin,right,rfl,nearest,others⟩ | none
  · exact beside.endAround_nested tag close list path follows all nearest others far item parts named below apart
  · obtain ⟨nodes,open_,owed,alone⟩ := beside.closeList close list follows all none
    have going : (second.readClosing close).path = [] ++ (front ++ closed :: back) := by rw [open_,parts]; rfl
    refine ⟨mirrors_readClosing tag rest going below (by simp) named apart
      (by simpa using between) nodes ⟨by omega,Nat.le_of_lt alone.list.1⟩ ?_,?_⟩
    · rw [owed,cutOff_append,cutOff_append,cutOff_item,cutOff_item,cutOff_eq inner,cutOff_eq within,names]
      exact List.Perm.refl _
    · exact alone.keep (alone.list.readClosing tag) (alone.item.readClosing tag)

/-- What a tag does to the item. The closing tag of the list follows the closing tag of the item, and
otherwise comes before the tag that ends the item. -/
inductive Beside.Outcome (k length : Nat) (outer : List OpenNode) (first second : Outline) (tag copy : Tag) : Prop
  | stays (beside : Beside k outer (first.read length tag) (second.read length copy))
  | closed (past : (first.read length tag).Past k)
      (stop : ∀ node, (first.read length tag).nodes[k]? = some node → node.stop = tag.stop)
      (parted : ∀ close, asciiLower close.name = "ul" → close.start = copy.stop →
        Parted k (first.read length tag) ((second.read length copy).readClosing close))
  | ended (past : (first.read length tag).Past k)
      (stop : ∀ node, (first.read length tag).nodes[k]? = some node → node.stop = tag.start)
      (parted : ∀ close, asciiLower close.name = "ul" →
        Parted k (first.read length tag) ((second.readClosing close).read length tag))
  | crossed (past : (first.read length tag).Past k)
      (unknown : ∀ node, (first.read length tag).nodes[k]? = some node → node.extent.isKnown = false)

theorem Beside.readOpening (beside : Beside k outer first second) (length : Nat) (tag copy : Tag)
    (name : copy.name = tag.name) (terminated : copy.terminated = tag.terminated) (selfClosing : Bool)
    (kind : tag.kind = .opening selfClosing) (kindToo : copy.kind = .opening selfClosing) :
    Outcome k length outer first second tag copy := by
  by_cases sibling : first.path.head? = some ⟨k,"li"⟩ ∧ asciiLower tag.name = "li"
  · obtain ⟨top,item⟩ := sibling
    obtain ⟨inner,within,path,follows,all⟩ := beside.path
    have size := beside.size
    have none : inner = [] ∧ within = [] := by
      cases all with
      | nil => exact ⟨rfl,rfl⟩
      | cons here rest =>
        have below := here.first
        rw [path,List.cons_append,List.head?_cons] at top
        rw [Option.some.inj top] at below
        exact absurd below (Nat.lt_irrefl k)
    obtain ⟨rfl,rfl⟩ := none
    have past : Past ⟨endAll first.nodes [⟨k,"li"⟩] tag.start fun _ => .implied,outer,first.owed⟩ k := by
      refine ⟨by rw [length_endAll]; exact size.1,fun entry member => ?_⟩
      exact Nat.ne_of_lt (beside.outside entry member)
    have kept := past.enter length tag selfClosing
    have read : first.read length tag =
        Outline.enter ⟨endAll first.nodes [⟨k,"li"⟩] tag.start fun _ => .implied,outer,first.owed⟩ length tag
          selfClosing := by
      rw [read_of_opening kind,item,endSibling_item first path]
    refine .ended (by rw [read]; exact kept.1) (fun node found => ?_) fun close list =>
      beside.endBySibling length tag close selfClosing kind item list path follows
    rw [read,kept.2] at found
    obtain ⟨_,_,_,_,rfl⟩ := endAll_ended _ _ _ _ _ _ found ⟨_,List.mem_singleton_self _,rfl⟩
    rfl
  · refine .stays ?_
    rw [read_of_opening kind,read_of_opening kindToo,name]
    exact (beside.endSibling _ _ _ fun top item => sibling ⟨top,item⟩).enter length length tag copy selfClosing
      name terminated

theorem Beside.readClosing (beside : Beside k outer first second) (length : Nat) (tag copy : Tag)
    (name : copy.name = tag.name) (kind : tag.kind = .closing) (kindToo : copy.kind = .closing) :
    Outcome k length outer first second tag copy := by
  have read (outline : Outline) : outline.read length tag = outline.readClosing tag := read_of_closing kind
  have readToo (outline : Outline) : outline.read length copy = outline.readClosing copy := read_of_closing kindToo
  obtain ⟨inner,within,path,follows,all⟩ := beside.path
  obtain ⟨beyond,_⟩ := inner_beyond all
  have outside := beside.outside
  have size := beside.size
  -- The tag closes an element in the item, the item, an element around the list, or nothing that is open.
  rcases split_path inner (asciiLower tag.name) with ⟨front,closed,back,parts,named,others⟩ | others
  · refine .stays ?_
    rw [read,readToo]
    exact beside.closeInner tag copy name path follows all parts named others
  by_cases item : "li" = asciiLower tag.name
  · have closes := readClosing_found first tag inner outer ⟨k,"li"⟩ path item others
    rw [← item] at others
    refine .closed ?_ (fun node found => ?_) fun close list next => ?_
    · rw [read,closes]
      refine ⟨by simpa using size.1,fun entry member => ?_⟩
      exact Nat.ne_of_lt (outside entry member)
    · rw [read,closes] at found
      obtain ⟨_,_,rfl⟩ := getElem?_modify_some found
      simp [Node.closeWith]
    · rw [read,readToo]
      exact beside.closeItem tag copy close name item.symm list next path follows all others
  rcases split_path outer (asciiLower tag.name) with ⟨front,closed,back,parts,named,between⟩ | around
  · have lower : closed.index < k := outside closed (by simp [parts])
    have apart : Avoids (asciiLower tag.name) (inner ++ ⟨k,"li"⟩ :: front) := by
      simpa [Avoids,or_imp,forall_and,item] using ⟨others,between⟩
    have closes := readClosing_found first tag (inner ++ ⟨k,"li"⟩ :: front) back closed (by simp [path,parts])
      named apart
    refine .ended ?_ (fun node found => ?_) fun close list => ?_
    · rw [read,closes]
      refine ⟨by simpa using size.1,fun entry member => ?_⟩
      exact Nat.ne_of_lt (outside entry (by simp [parts,member]))
    · rw [read,closes] at found
      rw [getElem?_modify_of_ne _ (by omega)] at found
      obtain ⟨_,_,_,_,rfl⟩ := endAll_ended _ _ _ _ _ _ found ⟨⟨k,"li"⟩,by simp,rfl⟩
      rfl
    · rw [read,read]
      exact beside.endAround tag close list path follows all others item parts named between
  have apart : Avoids (asciiLower tag.name) first.path := by
    rw [path]
    simpa [Avoids,or_imp,forall_and,item] using ⟨others,around⟩
  cases owed : first.owed.contains (asciiLower tag.name) with
  | true =>
    have list : "ul" ≠ asciiLower tag.name := by
      obtain ⟨entry,top,same⟩ := Option.map_eq_some_iff.mp beside.list
      rw [← same]
      exact around entry (List.mem_of_mem_head? top)
    have far : Avoids (asciiLower tag.name) within := by rwa [avoids_iff,← inner_names all,← avoids_iff]
    have apartToo : Avoids (asciiLower copy.name) second.path := by
      rw [follows,name]
      simpa [Avoids,or_imp,forall_and,item,list] using ⟨far,around⟩
    have owedToo : second.owed.contains (asciiLower copy.name) = true := by rw [name,← beside.owed,owed]
    refine .stays ?_
    rw [read,readToo,readClosing_owed first tag apart owed,readClosing_owed second copy apartToo owedToo]
    exact ⟨beside.nodes,size,beside.pending,by rw [name,beside.owed],⟨inner,within,path,follows,all⟩,outside,
      beside.list⟩
  | false =>
    have closes := readClosing_stray first tag apart owed
    refine .crossed ?_ fun node found => ?_
    · rw [read,closes]
      exact ⟨by simpa using size.1,by simp⟩
    · rw [read,closes] at found
      obtain ⟨_,_,_,_,rfl⟩ := endAll_ended _ _ _ _ _ _ found ⟨⟨k,"li"⟩,by simp [path],rfl⟩
      rfl

theorem Beside.read (beside : Beside k outer first second) (length : Nat) (tag copy : Tag)
    (kind : copy.kind = tag.kind) (name : copy.name = tag.name) (terminated : copy.terminated = tag.terminated) :
    Outcome k length outer first second tag copy := by
  cases same : tag.kind with
  | opening selfClosing =>
    exact beside.readOpening length tag copy name terminated selfClosing same (kind.trans same)
  | closing => exact beside.readClosing length tag copy name same (kind.trans same)
  | markup =>
    refine .stays ?_
    rw [read_of_markup same,read_of_markup (kind.trans same)]
    exact beside

end Outline

theorem Token.tag?_cases (token : Token) (start offset : Nat) :
    (token.tag? start = none ∧ token.tag? offset = none) ∨
      ∃ tag copy, token.tag? start = some tag ∧ token.tag? offset = some copy ∧ copy.kind = tag.kind ∧
        copy.name = tag.name ∧ copy.terminated = tag.terminated ∧ tag.start = start ∧
        tag.stop = start + byteLength token.render ∧ copy.stop = offset + byteLength token.render := by
  cases token with
  | text chars nonempty plain => exact Or.inl ⟨rfl,rfl⟩
  | markup body plain ended inside => exact Or.inr ⟨_,_,rfl,rfl,rfl,rfl,rfl,rfl,rfl,rfl⟩
  | opening tag => exact Or.inr ⟨_,_,rfl,rfl,rfl,rfl,rfl,rfl,rfl,rfl⟩
  | closing name letter written foreign => exact Or.inr ⟨_,_,rfl,rfl,rfl,rfl,rfl,rfl,rfl,rfl⟩

theorem byteLength_listClose : byteLength listClose.render = 5 := by decide

namespace Outline

theorem readTokens_listClose (length offset : Nat) (rest : List Token) (outline : Outline) :
    outline.readTokens length offset (listClose :: rest) =
      (outline.readClosing ⟨.closing,"ul",offset,offset + 5,true⟩).readTokens length (offset + 5) rest := by
  rw [readTokens_cons,byteLength_listClose]
  rfl

theorem Beside.readTokens (beside : Beside k outer first second) (length start offset : Nat)
    (gap : start = offset + 5) (rest : List Token) (node : Node)
    (found : (first.readTokens length start rest).nodes[k]? = some node)
    (known : node.extent.isKnown = true) :
    ∃ inside after, rest = inside ++ after ∧ node.stop = start + byteLength (renderAll inside) ∧
      Parted k (first.readTokens length start rest)
        (second.readTokens length offset (inside ++ listClose :: after)) := by
  have lower : asciiLower "ul" = "ul" := by decide
  -- On the pieces: both outlines read the same ones, five bytes apart, until one of them ends the item.
  induction rest generalizing first second start offset with
  | nil =>
    have pending := beside.pending node found
    rw [pending] at known
    contradiction
  | cons token rest ih =>
    rw [readTokens_cons] at found ⊢
    rcases token.tag?_cases start offset with ⟨none,noneToo⟩ | ⟨tag,copy,made,copied,kind,name,terminated,starts,
      stops,ends⟩
    · rw [none] at found ⊢
      obtain ⟨inside,after,rfl,stop,parted⟩ := ih beside (start + byteLength token.render)
        (offset + byteLength token.render) (by omega) found
      refine ⟨token :: inside,after,rfl,?_,?_⟩
      · grind
      · rw [List.cons_append,readTokens_cons,noneToo]
        exact parted
    · rw [made] at found ⊢
      have final (past : (first.read length tag).Past k) : (first.read length tag).nodes[k]? = some node := by
        rw [← found]
        exact (past.readAll length _).2.symm
      cases beside.read length tag copy kind name terminated with
      | stays beside =>
        obtain ⟨inside,after,rfl,stop,parted⟩ := ih beside (start + byteLength token.render)
          (offset + byteLength token.render) (by omega) found
        refine ⟨token :: inside,after,rfl,?_,?_⟩
        · grind
        · rw [List.cons_append,readTokens_cons,copied]
          exact parted
      | closed past stop parted =>
        refine ⟨[token],rest,rfl,?_,?_⟩
        · rw [stop node (final past),stops]
          simp [renderAll]
        · rw [List.singleton_append,readTokens_cons,copied,readTokens_listClose]
          have close := parted ⟨.closing,"ul",offset + byteLength token.render,offset + byteLength token.render + 5,
            true⟩ lower ends.symm
          rw [show start + byteLength token.render = offset + byteLength token.render + 5 by omega]
          exact close.readTokens length _ rest
      | ended past stop parted =>
        refine ⟨[],token :: rest,rfl,?_,?_⟩
        · rw [stop node (final past),starts]
          rfl
        · have close := parted ⟨.closing,"ul",offset,start,true⟩ lower
          rw [List.nil_append,readTokens_listClose,readTokens_cons,← gap,made]
          exact close.readTokens length _ rest
      | crossed past unknown =>
        rw [unknown node (final past)] at known
        contradiction

theorem read_item (outline : Outline) (list : outline.path.head?.map (·.name) = some "ul") (length : Nat)
    (label : String) (item : asciiLower label = "li") (slash : Bool) (start stop : Nat) :
    outline.read length ⟨.opening slash,label,start,stop,true⟩ =
      outline.enter length ⟨.opening slash,label,start,stop,true⟩ slash := by
  have kind : (⟨.opening slash,label,start,stop,true⟩ : Tag).kind = .opening slash := rfl
  rw [read_of_opening kind,item,endSibling_listed outline list]

theorem read_list (outline : Outline) (length start stop : Nat) :
    outline.read length ⟨.opening false,"ul",start,stop,true⟩ =
        outline.enter length ⟨.opening false,"ul",start,stop,true⟩ false ∧
      (outline.enter length ⟨.opening false,"ul",start,stop,true⟩ false).path =
        ⟨outline.nodes.length,"ul"⟩ :: outline.path := by
  have lower : asciiLower "ul" = "ul" := by decide
  have stays : isSelfEnding "ul" = false := by decide
  have holds : isVoid "ul" = false := by decide
  have still : outline.endSibling "ul" start = outline :=
    endSibling_stays outline (fun _ _ loose => absurd (loose.symm.trans stays) (by decide)) start
  constructor
  · have kind : (⟨.opening false,"ul",start,stop,true⟩ : Tag).kind = .opening false := rfl
    rw [read_of_opening kind,lower,still]
  · simp [Outline.enter,lower,hasContent,holds]

variable {outline : Outline}

theorem beside_start (list : outline.path.head?.map (·.name) = some "ul")
    (outside : ∀ entry ∈ outline.path, entry.index < outline.nodes.length) (length : Nat) (label : String)
    (item : asciiLower label = "li") (start stop listStart listStop copyStart copyStop : Nat) :
    Beside outline.nodes.length outline.path (outline.read length ⟨.opening false,label,start,stop,true⟩)
      ((outline.read length ⟨.opening false,"ul",listStart,listStop,true⟩).read length
        ⟨.opening false,label,copyStart,copyStop,true⟩) := by
  obtain ⟨opened,path⟩ := read_list outline length listStart listStop
  have holds : isVoid "li" = false := by decide
  rw [read_item outline list length label item,opened,read_item _ (by rw [path]; rfl) length label item]
  refine ⟨fun i bound => ?_,?_,fun node found => ?_,rfl,⟨[],[],?_,?_,.nil⟩,outside,list⟩
  · simp only [Outline.enter,List.append_assoc]
    rw [List.getElem?_append_left bound,List.getElem?_append_left bound]
  · simp [Outline.enter]
  · simp only [Outline.enter,List.getElem?_concat_length] at found
    rw [← Option.some.inj found]
    simp [openingExtent,item,holds]
  · simp [Outline.enter,hasContent,item,holds]
  · have content : hasContent ⟨.opening false,label,copyStart,copyStop,true⟩ false "li" = true := by
      simp [hasContent,holds]
    rw [Outline.enter]
    dsimp only
    rw [path,item,content]
    simp [Outline.enter]

theorem past_start (list : outline.path.head?.map (·.name) = some "ul")
    (outside : ∀ entry ∈ outline.path, entry.index < outline.nodes.length) (length : Nat) (label : String)
    (item : asciiLower label = "li") (start stop : Nat) :
    (outline.read length ⟨.opening true,label,start,stop,true⟩).Past outline.nodes.length ∧
      ∀ node, (outline.read length ⟨.opening true,label,start,stop,true⟩).nodes[outline.nodes.length]? =
        some node → node.stop = stop := by
  rw [read_item outline list length label item]
  refine ⟨⟨by simp [Outline.enter],?_⟩,fun node found => ?_⟩
  · simpa [Outline.enter,hasContent] using fun entry member => Nat.ne_of_lt (outside entry member)
  · simp only [Outline.enter,List.getElem?_concat_length] at found
    rw [← Option.some.inj found]
    simp [openingExtent]

theorem parted_start (list : outline.path.head?.map (·.name) = some "ul")
    (outside : ∀ entry ∈ outline.path, entry.index < outline.nodes.length) (length : Nat) (label : String)
    (item : asciiLower label = "li") (start stop listStart listStop copyStart copyStop closeStop : Nat) :
    Parted outline.nodes.length (outline.read length ⟨.opening true,label,start,stop,true⟩)
      (((outline.read length ⟨.opening false,"ul",listStart,listStop,true⟩).read length
        ⟨.opening true,label,copyStart,copyStop,true⟩).readClosing ⟨.closing,"ul",copyStop,closeStop,true⟩) := by
  obtain ⟨opened,path⟩ := read_list outline length listStart listStop
  have lower : asciiLower "ul" = "ul" := by decide
  rw [read_item outline list length label item,opened,read_item _ (by rw [path]; rfl) length label item]
  rw [readClosing_found _ ⟨.closing,"ul",copyStop,closeStop,true⟩ [] outline.path ⟨outline.nodes.length,"ul"⟩
    (by rw [Outline.enter]; simp [hasContent,path]) lower.symm (by simp [Avoids])]
  rw [endAll_nil]
  refine ⟨⟨fun i bound => ?_,?_,?_,?_⟩,⟨?_,?_⟩,⟨?_,?_⟩,fun list item found present => ?_⟩
  · dsimp only
    rw [getElem?_modify_of_ne _ (by omega)]
    simp only [Outline.enter,List.append_assoc]
    rw [List.getElem?_append_left bound,List.getElem?_append_left bound]
  · simp [Outline.enter]
  · have same : (outline.enter length ⟨.opening true,label,start,stop,true⟩ true).path = outline.path := by
      simp [Outline.enter,hasContent]
    rw [same]
    exact twins_refl _
  · exact List.Perm.refl _
  · simp [Outline.enter]
  · exact fun entry member => Nat.ne_of_lt (outside entry member)
  · simp [Outline.enter]
  · exact fun entry member => Nat.ne_of_lt (Nat.lt_succ_of_lt (outside entry member))
  · obtain ⟨_,_,rfl⟩ := getElem?_modify_some found
    rw [getElem?_modify_of_ne _ (by dsimp only; omega)] at present
    have size : (outline.enter length ⟨.opening false,"ul",listStart,listStop,true⟩ false).nodes.length =
        outline.nodes.length + 1 := by simp [Outline.enter]
    rw [Outline.enter] at present
    dsimp only at present
    rw [← size,List.getElem?_concat_length] at present
    rw [← Option.some.inj present]
    simp [Node.closeWith,openingExtent]

end Outline

end AccessibleMarkup.Markup
