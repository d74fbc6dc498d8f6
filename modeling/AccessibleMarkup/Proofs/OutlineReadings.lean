import AccessibleMarkup.Proofs.OpeningTags
import Mathlib.Data.List.Forall2
import Mathlib.Data.List.Induction

/-! Two readings of tags side by side. Moving all offsets moves the outline with them, an element that
has ended is left alone by what follows, and two outlines that are alike up to some element stay alike
when they read the same tags. -/
namespace AccessibleMarkup.Markup

/-- The element in a text whose offsets have moved. -/
def Node.shift (move : Nat → Nat) (node : Node) : Node :=
  { node with
    start := move node.start
    openStop := move node.openStop
    closeStart := move node.closeStart
    stop := move node.stop }

def Tag.shift (move : Nat → Nat) (tag : Tag) : Tag :=
  { tag with
    start := move tag.start
    stop := move tag.stop }

namespace Outline

def relabel (change : Node → Node) (outline : Outline) : Outline :=
  { outline with nodes := outline.nodes.map change }

def shift (move : Nat → Nat) (outline : Outline) : Outline :=
  { outline with nodes := outline.nodes.map (·.shift move) }

theorem innerExtent_ne_unterminated (entry : OpenNode) : innerExtent entry ≠ .unterminated := by
  unfold innerExtent
  split_ifs <;> simp

/-- A change of elements under which a text of another length is read, its tags moved: to start an element
or to end one and to change it after that comes to the same as to change it first. -/
structure Carries (change : Node → Node) (move : Nat → Nat) (length other : Nat) : Prop where
  ended : ∀ node offset extent, extent ≠ .unterminated →
    change (node.endAt offset extent) = (change node).endAt (move offset) extent
  closed : ∀ node tag, change (node.closeWith tag) = (change node).closeWith (tag.shift move)
  entered : ∀ outline tag selfClosing, relabel change (enter outline length tag selfClosing) =
    enter (relabel change outline) other (tag.shift move) selfClosing

theorem relabel_modify (change : Node → Node) (nodes : List Node) (k : Nat) (first second : Node → Node)
    (same : ∀ node, change (first node) = second (change node)) :
    (nodes.modify k first).map change = (nodes.map change).modify k second := by
  apply List.ext_getElem?
  intro i
  rw [List.getElem?_map,List.getElem?_modify,List.getElem?_modify,List.getElem?_map]
  cases nodes[i]? with
  | none => rfl
  | some node =>
    by_cases here : k = i
    · simp [here,same]
    · simp [here]

variable {change : Node → Node} {move : Nat → Nat} {length other : Nat}

theorem Carries.endAll (carries : Carries change move length other) (nodes : List Node) (ended : List OpenNode)
    (offset : Nat) (extent : OpenNode → Extent) (known : ∀ entry, extent entry ≠ .unterminated) :
    (endAll nodes ended offset extent).map change = endAll (nodes.map change) ended (move offset) extent := by
  unfold Outline.endAll
  induction ended generalizing nodes with
  | nil => rfl
  | cons entry rest ih =>
    rw [List.foldl_cons,List.foldl_cons,ih]
    rw [relabel_modify change nodes _ _ (·.endAt (move offset) (extent entry)) fun node =>
      carries.ended node offset _ (known entry)]

theorem Carries.endSibling (carries : Carries change move length other) (outline : Outline) (name : String)
    (offset : Nat) :
    (outline.endSibling name offset).relabel change = (outline.relabel change).endSibling name (move offset) := by
  obtain ⟨nodes,path,owed⟩ := outline
  cases path with
  | nil => rfl
  | cons top outer =>
    simp only [Outline.endSibling,relabel]
    split_ifs
    · rw [carries.endAll _ _ _ _ (by simp)]
    · rfl

theorem Carries.closing (carries : Carries change move length other) {outline next : Outline} {tag : Tag}
    (closing : outline.ClosingStep tag next) :
    next.relabel change = (outline.relabel change).readClosing (tag.shift move) := by
  cases closing with
  | closes inner closed outer path named others =>
    have moved : (outline.relabel change).path = inner ++ closed :: outer := path
    rw [readClosing_found _ (tag.shift move) inner outer closed moved named others]
    simp only [relabel,Outline.mk.injEq,and_true]
    rw [relabel_modify change _ _ _ (·.closeWith (tag.shift move)) fun node => carries.closed node tag,
      carries.endAll _ _ _ _ innerExtent_ne_unterminated]
    rfl
  | pays others owed =>
    rw [readClosing_owed (outline.relabel change) (tag.shift move) others owed]
    rfl
  | strays others owed =>
    rw [readClosing_stray (outline.relabel change) (tag.shift move) others owed]
    simp only [relabel]
    rw [carries.endAll _ _ _ _ (by simp)]
    rfl

theorem Carries.read (carries : Carries change move length other) (outline : Outline) (tag : Tag) :
    (outline.read length tag).relabel change = (outline.relabel change).read other (tag.shift move) := by
  cases kind : tag.kind with
  | opening selfClosing =>
    have moved : (tag.shift move).kind = .opening selfClosing := kind
    rw [read_of_opening kind,read_of_opening moved,carries.entered,carries.endSibling]
    rfl
  | closing =>
    have moved : (tag.shift move).kind = .closing := kind
    rw [read_of_closing kind,read_of_closing moved]
    exact carries.closing (outline.closingStep tag)
  | markup =>
    have moved : (tag.shift move).kind = .markup := kind
    rw [read_of_markup kind,read_of_markup moved]

theorem Carries.readAll (carries : Carries change move length other) (tags : List Tag) (outline : Outline) :
    (tags.foldl (Outline.read length) outline).relabel change =
      (tags.map (·.shift move)).foldl (Outline.read other) (outline.relabel change) := by
  induction tags generalizing outline with
  | nil => rfl
  | cons tag rest ih => rw [List.foldl_cons,ih,carries.read,List.map_cons,List.foldl_cons]

theorem carries_shift (move : Nat → Nat) (length : Nat) : Carries (·.shift move) move length (move length) where
  ended _ _ _ _ := rfl
  closed _ _ := rfl
  entered outline tag selfClosing := by
    simp only [relabel,enter,Node.shift,List.map_append,List.map_cons,List.map_nil,List.length_map,apply_ite move]
    rfl

theorem shift_readAll (move : Nat → Nat) (length : Nat) (tags : List Tag) (outline : Outline) :
    (tags.foldl (read length) outline).shift move =
      (tags.map (·.shift move)).foldl (read (move length)) (outline.shift move) :=
  (carries_shift move length).readAll tags outline

theorem modify_middle {α : Type} (front inner : List α) (node : α) (change : α → α) :
    (front ++ node :: inner).modify front.length change = front ++ change node :: inner := by
  induction front with
  | nil => rfl
  | cons first front ih => exact congrArg (first :: ·) ih

theorem getElem?_endAll (nodes : List Node) (ended : List OpenNode) (offset : Nat)
    (extent : OpenNode → Extent) (i : Nat) (apart : ∀ entry ∈ ended, entry.index ≠ i) :
    (endAll nodes ended offset extent)[i]? = nodes[i]? := by
  unfold endAll
  induction ended generalizing nodes with
  | nil => rfl
  | cons entry rest ih =>
    rw [List.foldl_cons,ih _ fun other member => apart other (List.mem_cons_of_mem _ member)]
    exact getElem?_modify_of_ne _ (apart entry List.mem_cons_self)

theorem endAll_append (nodes : List Node) (first second : List OpenNode) (offset : Nat) (extent : OpenNode → Extent) :
    endAll nodes (first ++ second) offset extent = endAll (endAll nodes first offset extent) second offset extent :=
  List.foldl_append ..

theorem getElem?_endAll_of_mem (nodes : List Node) {ended : List OpenNode} {entry : OpenNode} (offset : Nat)
    (extent : OpenNode → Extent) (apart : ended.Pairwise fun inner outer => inner.index ≠ outer.index)
    (member : entry ∈ ended) : (endAll nodes ended offset extent)[entry.index]? =
      nodes[entry.index]?.map (·.endAt offset (extent entry)) := by
  induction ended generalizing nodes with
  | nil => contradiction
  | cons top rest ih =>
    obtain ⟨others,further⟩ := List.pairwise_cons.mp apart
    rcases List.mem_cons.mp member with rfl | later
    · have last : (endAll nodes (entry :: rest) offset extent)[entry.index]? =
          (nodes.modify entry.index (·.endAt offset (extent entry)))[entry.index]? :=
        getElem?_endAll _ _ _ _ _ fun other among => (others other among).symm
      rw [last,List.getElem?_modify_eq]
      rfl
    · refine (ih (nodes.modify top.index (·.endAt offset (extent top))) further later).trans ?_
      rw [getElem?_modify_of_ne _ (others entry later)]

@[simp] theorem length_endAll (nodes : List Node) (ended : List OpenNode) (offset : Nat)
    (extent : OpenNode → Extent) : (endAll nodes ended offset extent).length = nodes.length := by
  have same := congrArg List.length (map_endAll (fun _ => ()) nodes ended offset extent fun _ _ _ => rfl)
  simpa using same

theorem endAll_ended (nodes : List Node) (ended : List OpenNode) (offset : Nat) (extent : OpenNode → Extent)
    (i : Nat) (node : Node) (found : (endAll nodes ended offset extent)[i]? = some node)
    (listed : ∃ entry ∈ ended, entry.index = i) :
    ∃ entry ∈ ended, entry.index = i ∧ ∃ before : Node, node = before.endAt offset (extent entry) := by
  induction ended using List.reverseRecOn generalizing node with
  | nil => simp at listed
  | append_singleton rest last ih =>
    rw [endAll,List.foldl_append] at found
    obtain ⟨before,present,rfl⟩ := getElem?_modify_some found
    split_ifs with here
    · exact ⟨last,by simp,here,before,rfl⟩
    · obtain ⟨entry,member,index⟩ := listed
      have earlier : entry ∈ rest := by
        rcases List.mem_append.mp member with inside | final
        · exact inside
        · rw [List.mem_singleton.mp final] at index
          exact absurd index here
      obtain ⟨one,among,place,old,same⟩ := ih before present ⟨entry,earlier,index⟩
      exact ⟨one,by simp [among],place,old,same⟩

/-- What no tag changes: it lasts when the innermost element is given an end, when an element is started, and
whatever closing tags are still to come. -/
structure Lasts (holds : Outline → Prop) : Prop where
  ended : ∀ nodes top outer owed closeStart stop extent, holds ⟨nodes,top :: outer,owed⟩ →
    holds ⟨nodes.modify top.index fun node => { node with closeStart, stop, extent },outer,owed⟩
  entered : ∀ outline length tag selfClosing, holds outline → holds (enter outline length tag selfClosing)
  owing : ∀ nodes path owed debts, holds ⟨nodes,path,owed⟩ → holds ⟨nodes,path,debts⟩

variable {holds : Outline → Prop} {outline : Outline}

theorem Lasts.endAll (lasts : Lasts holds) {nodes : List Node} {inner outer : List OpenNode} {owed : List String}
    (before : holds ⟨nodes,inner ++ outer,owed⟩) (offset : Nat) (extent : OpenNode → Extent) :
    holds ⟨endAll nodes inner offset extent,outer,owed⟩ := by
  induction inner generalizing nodes with
  | nil => exact before
  | cons top inner ih => exact ih (lasts.ended _ _ _ _ offset offset (extent top) before)

theorem Lasts.sibling (lasts : Lasts holds) (before : holds outline) {name : String} {offset : Nat} {next : Outline}
    (sibling : outline.SiblingStep name offset next) : holds next := by
  cases sibling with
  | stays => exact before
  | ends top outer path =>
    have single : holds ⟨outline.nodes,[top] ++ outer,outline.owed⟩ := by
      rw [List.singleton_append,← path]
      exact before
    exact lasts.endAll single offset _

theorem Lasts.closing (lasts : Lasts holds) (before : holds outline) {tag : Tag} {next : Outline}
    (closing : outline.ClosingStep tag next) : holds next := by
  cases closing with
  | closes inner closed outer path =>
    have parts : holds ⟨outline.nodes,inner ++ closed :: outer,outline.owed⟩ := path ▸ before
    exact lasts.owing _ _ _ _ (lasts.ended _ _ _ _ tag.start tag.stop .closed (lasts.endAll parts _ _))
  | pays => exact lasts.owing _ _ _ _ before
  | strays =>
    have whole : holds ⟨outline.nodes,outline.path ++ [],outline.owed⟩ := by
      rw [List.append_nil]
      exact before
    exact lasts.owing _ _ _ _ (lasts.endAll whole _ _)

theorem Lasts.step (lasts : Lasts holds) (before : holds outline) {length : Nat} {tag : Tag} {next : Outline}
    (step : Step length outline tag next) : holds next := by
  cases step with
  | opening selfClosing _ passed sibling => exact lasts.entered _ length tag selfClosing (lasts.sibling before sibling)
  | closing _ next closing => exact lasts.closing before closing
  | markup => exact before

theorem Lasts.read (lasts : Lasts holds) (before : holds outline) (length : Nat) (tag : Tag) :
    holds (outline.read length tag) := lasts.step before (outline.step tag length)

theorem Lasts.readAll (lasts : Lasts holds) (before : holds outline) (length : Nat) (tags : List Tag) :
    holds (tags.foldl (Outline.read length) outline) := by
  induction tags generalizing outline with
  | nil => exact before
  | cons tag rest ih => exact ih (lasts.read before length tag)

def Past (outline : Outline) (i : Nat) : Prop :=
  i < outline.nodes.length ∧ ∀ entry ∈ outline.path, entry.index ≠ i

def Keeps (i : Nat) (outline next : Outline) : Prop :=
  next.Past i ∧ next.nodes[i]? = outline.nodes[i]?

variable {i : Nat}

theorem Past.enter (past : outline.Past i) (length : Nat) (tag : Tag) (selfClosing : Bool) :
    Keeps i outline (outline.enter length tag selfClosing) := by
  obtain ⟨bound,apart⟩ := past
  refine ⟨⟨?_,?_⟩,List.getElem?_append_left bound⟩
  · simp only [Outline.enter,List.length_append]
    omega
  · simp only [Outline.enter]
    split_ifs
    · intro entry member
      rcases List.mem_cons.mp member with rfl | outer
      · exact Nat.ne_of_gt bound
      · exact apart entry outer
    · exact apart

theorem lasts_keeps (i : Nat) (outline : Outline) : Lasts (Keeps i outline) where
  ended nodes top outer owed closeStart stop extent := by
    rintro ⟨⟨bound,apart⟩,same⟩
    refine ⟨⟨by rwa [List.length_modify],fun entry member => apart entry (List.mem_cons_of_mem _ member)⟩,?_⟩
    exact (getElem?_modify_of_ne _ (apart top List.mem_cons_self)).trans same
  entered next length tag selfClosing := by
    rintro ⟨past,same⟩
    obtain ⟨entered,kept⟩ := past.enter length tag selfClosing
    exact ⟨entered,kept.trans same⟩
  owing _ _ _ _ kept := kept

theorem Past.readClosing (past : outline.Past i) (tag : Tag) : Keeps i outline (outline.readClosing tag) :=
  (lasts_keeps i outline).closing ⟨past,rfl⟩ (outline.closingStep tag)

theorem Past.readAll (past : outline.Past i) (length : Nat) (tags : List Tag) :
    Keeps i outline (tags.foldl (Outline.read length) outline) :=
  (lasts_keeps i outline).readAll ⟨past,rfl⟩ length tags

end Outline

/-- Open elements of two outlines that stand for each other: they are the same element, or both come
after the first elements. -/
structure Twins (k : Nat) (first second : OpenNode) : Prop where
  name : first.name = second.name
  index : first.index = second.index ∨ (k ≤ first.index ∧ k ≤ second.index)

variable {k : Nat}

theorem Twins.refl (entry : OpenNode) : Twins k entry entry := ⟨rfl,Or.inl rfl⟩

theorem twins_refl (path : List OpenNode) : List.Forall₂ (Twins k) path path :=
  List.forall₂_same.mpr fun entry _ => Twins.refl entry

theorem twins_names {first second : List OpenNode} (twins : List.Forall₂ (Twins k) first second) :
    first.map (·.name) = second.map (·.name) := by
  induction twins with
  | nil => rfl
  | cons here _ ih => rw [List.map_cons,List.map_cons,here.name,ih]

theorem avoids_iff (name : String) (path : List OpenNode) :
    Avoids name path ↔ name ∉ path.map (·.name) := by
  simp [Avoids]

theorem cutOff_eq (inner : List OpenNode) :
    Outline.cutOff inner = (inner.map (·.name)).filter fun name => !isSelfEnding name := by
  rw [Outline.cutOff,List.filter_map]
  rfl

theorem split_forall₂ {α β : Type} {related : α → β → Prop} {before after : List α} {here : α} {other : List β}
    (all : List.Forall₂ related (before ++ here :: after) other) :
    ∃ first second third, other = first ++ second :: third ∧ List.Forall₂ related before first ∧
      related here second ∧ List.Forall₂ related after third := by
  induction before generalizing other with
  | nil =>
    obtain ⟨second,third,one,rest,rfl⟩ := List.forall₂_cons_left_iff.mp all
    exact ⟨[],second,third,rfl,.nil,one,rest⟩
  | cons entry before ih =>
    obtain ⟨top,others,one,rest,rfl⟩ := List.forall₂_cons_left_iff.mp all
    obtain ⟨first,second,third,rfl,inner,closed,outer⟩ := ih rest
    exact ⟨top :: first,second,third,rfl,.cons one inner,closed,outer⟩

namespace Outline

/-- Outlines with the same first `k` elements, which are open in both or in none, and with open elements
of the same names. -/
structure Mirrors (k : Nat) (first second : Outline) : Prop where
  nodes : ∀ i < k, second.nodes[i]? = first.nodes[i]?
  size : k ≤ first.nodes.length ∧ k ≤ second.nodes.length
  path : List.Forall₂ (Twins k) first.path second.path
  owed : first.owed.Perm second.owed

theorem modify_twins {first second : List Node} (same : ∀ i < k, second[i]? = first[i]?) {left right : OpenNode}
    (twins : Twins k left right) (change : Node → Node) :
    ∀ i < k, (second.modify right.index change)[i]? = (first.modify left.index change)[i]? := by
  intro i bound
  rcases twins.index with index | ⟨beyond,after⟩
  · rw [List.getElem?_modify,List.getElem?_modify,same i bound,index]
  · rw [getElem?_modify_of_ne _ (by omega),getElem?_modify_of_ne _ (by omega),same i bound]

theorem endAll_twins {first second : List Node} (same : ∀ i < k, second[i]? = first[i]?)
    {left right : List OpenNode} (twins : List.Forall₂ (Twins k) left right) (offset : Nat)
    (extent : OpenNode → Extent) (named : ∀ one other, one.name = other.name → extent one = extent other) :
    ∀ i < k, (endAll second right offset extent)[i]? = (endAll first left offset extent)[i]? := by
  unfold endAll
  induction twins generalizing first second with
  | nil => exact same
  | cons here _ ih =>
    rw [List.foldl_cons,List.foldl_cons]
    apply ih
    rw [named _ _ here.name]
    exact modify_twins same here _

theorem innerExtent_named (one other : OpenNode) (same : one.name = other.name) :
    innerExtent one = innerExtent other := by
  rw [innerExtent,innerExtent,same]

variable {first second : Outline}

theorem Mirrors.endSibling (mirrors : Mirrors k first second) (name : String) (offset : Nat) :
    Mirrors k (first.endSibling name offset) (second.endSibling name offset) := by
  obtain ⟨nodes,path,owed⟩ := first
  obtain ⟨others,follows,debts⟩ := second
  obtain ⟨same,size,twins,perm⟩ := mirrors
  dsimp only at same size twins perm
  cases twins with
  | nil => exact ⟨same,size,.nil,perm⟩
  | cons here rest =>
    unfold Outline.endSibling
    dsimp only
    rw [here.name]
    split_ifs
    · refine ⟨endAll_twins same (.cons here .nil) offset (fun _ => .implied) fun _ _ _ => rfl,?_,rest,perm⟩
      rwa [length_endAll,length_endAll]
    · exact ⟨same,size,.cons here rest,perm⟩

theorem Mirrors.enter (mirrors : Mirrors k first second) (length : Nat) (tag : Tag) (selfClosing : Bool) :
    Mirrors k (first.enter length tag selfClosing) (second.enter length tag selfClosing) := by
  obtain ⟨before,after⟩ := mirrors.size
  refine ⟨fun i bound => ?_,?_,?_,mirrors.owed⟩
  · simp only [Outline.enter]
    rw [List.getElem?_append_left (by omega),List.getElem?_append_left (by omega),mirrors.nodes i bound]
  · simp only [Outline.enter,List.length_append]
    omega
  · simp only [Outline.enter]
    split_ifs
    · exact .cons ⟨rfl,Or.inr mirrors.size⟩ mirrors.path
    · exact mirrors.path

theorem Mirrors.closing (mirrors : Mirrors k first second) {tag : Tag} {next : Outline}
    (closing : first.ClosingStep tag next) : Mirrors k next (second.readClosing tag) := by
  have names := twins_names mirrors.path
  have apart (others : Avoids (Text.asciiLower tag.name) first.path) :
      Avoids (Text.asciiLower tag.name) second.path := by
    rwa [avoids_iff,← names,← avoids_iff]
  have contains : second.owed.contains (Text.asciiLower tag.name) =
      first.owed.contains (Text.asciiLower tag.name) := by
    rw [Bool.eq_iff_iff,List.contains_iff_mem,List.contains_iff_mem,mirrors.owed.mem_iff]
  cases closing with
  | closes inner closed outer path named others =>
    have twins := mirrors.path
    rw [path] at twins
    obtain ⟨left,here,right,follows,within,same,around⟩ := split_forall₂ twins
    have apart : Avoids (Text.asciiLower tag.name) left := by
      rwa [avoids_iff,← twins_names within,← avoids_iff]
    rw [readClosing_found second tag left right here follows (same.name ▸ named) apart]
    refine ⟨modify_twins (endAll_twins mirrors.nodes within _ _ innerExtent_named) same _,?_,around,?_⟩
    · simpa using mirrors.size
    · dsimp only
      rw [cutOff_eq,cutOff_eq,twins_names within]
      exact mirrors.owed.append_left _
  | pays others owed =>
    rw [readClosing_owed second tag (apart others) (contains.trans owed)]
    exact ⟨mirrors.nodes,mirrors.size,mirrors.path,mirrors.owed.erase _⟩
  | strays others owed =>
    rw [readClosing_stray second tag (apart others) (contains.trans owed)]
    refine ⟨endAll_twins mirrors.nodes mirrors.path _ _ fun _ _ _ => rfl,?_,.nil,?_⟩
    · simpa using mirrors.size
    · dsimp only
      rw [names]
      exact mirrors.owed.append_left _

theorem Mirrors.read (mirrors : Mirrors k first second) (length : Nat) (tag : Tag) :
    Mirrors k (first.read length tag) (second.read length tag) := by
  cases kind : tag.kind with
  | opening selfClosing =>
    rw [read_of_opening kind,read_of_opening kind]
    exact (mirrors.endSibling (Text.asciiLower tag.name) tag.start).enter length tag selfClosing
  | closing =>
    rw [read_of_closing kind,read_of_closing kind]
    exact mirrors.closing (first.closingStep tag)
  | markup =>
    rw [read_of_markup kind,read_of_markup kind]
    exact mirrors

/-- Outlines that are alike stay alike when they read the same tags. -/
theorem Mirrors.readAll (mirrors : Mirrors k first second) (length : Nat) (tags : List Tag) :
    Mirrors k (tags.foldl (Outline.read length) first) (tags.foldl (Outline.read length) second) := by
  induction tags generalizing first second with
  | nil => exact mirrors
  | cons tag rest ih => exact ih (mirrors.read length tag)

end Outline

end AccessibleMarkup.Markup
