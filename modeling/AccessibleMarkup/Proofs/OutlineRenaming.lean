import AccessibleMarkup.Proofs.AppendedText
import AccessibleMarkup.Proofs.TagRenaming

/-! The outline of a text in which an element has another name. Where no element is cut off, a closing tag ends the
innermost open element of its name and besides it only elements whose closing tags may be left out. So an element
can take the name of another one around it or in it, and every tag still ends what it ended before. -/
namespace AccessibleMarkup.Markup

open Text

def OpenNode.rename (k : Nat) (name : String) (entry : OpenNode) : OpenNode :=
  if entry.index = k then { entry with name } else entry

def Node.rename (name : String) (node : Node) : Node := { node with name }

/-- A name whose elements have content, and end only with a closing tag. -/
structure Lasting (name : String) : Prop where
  content : isVoid name = false
  stays : isSelfEnding name = false

namespace Outline

def rename (k : Nat) (name : String) (outline : Outline) : Outline :=
  { outline with
    nodes := outline.nodes.modify k (·.rename name)
    path := outline.path.map (·.rename k name) }

def Uncut (outline : Outline) : Prop := ∀ node ∈ outline.nodes, node.extent ≠ .crossed

/-- The element at the index has been read, and an element that is open under this index has the name. -/
structure Named (k : Nat) (name : String) (outline : Outline) : Prop where
  inside : k < outline.nodes.length
  named : ∀ entry ∈ outline.path, entry.index = k → entry.name = name

theorem lasts_named (k : Nat) (name : String) : Lasts (Named k name) where
  ended nodes top outer owed closeStart stop extent named :=
    ⟨by rw [List.length_modify]; exact named.inside,
      fun entry member => named.named entry (List.mem_cons_of_mem _ member)⟩
  entered outline length tag selfClosing named := by
    refine ⟨?_,fun entry member here => ?_⟩
    · rw [enter,List.length_append]
      exact Nat.lt_add_right _ named.inside
    · rw [enter] at member
      dsimp only at member
      split_ifs at member
      · rcases List.mem_cons.mp member with rfl | outer
        · exact absurd here (Nat.ne_of_gt named.inside)
        · exact named.named entry outer here
      · exact named.named entry member here
  owing _ _ _ _ named := ⟨named.inside,named.named⟩

variable {outline : Outline} {k : Nat} {old new : String}

theorem OpenPath.uncut_of_readAll (opened : outline.OpenPath) (length : Nat) (tags : List Tag)
    (uncut : (tags.foldl (read length) outline).Uncut) : outline.Uncut := by
  intro node member crossed
  obtain ⟨i,found⟩ := List.mem_iff_getElem?.mp member
  have past := opened.past found (by rw [crossed]; simp)
  have kept := (past.readAll length tags).2.trans found
  exact uncut node (List.mem_of_getElem? kept) crossed

theorem modify_rename_comm (nodes : List Node) (i k : Nat) (name : String) (change : Node → Node)
    (same : ∀ node : Node, change (node.rename name) = (change node).rename name) :
    (nodes.modify k (·.rename name)).modify i change = (nodes.modify i change).modify k (·.rename name) := by
  apply List.ext_getElem?
  intro j
  rw [List.getElem?_modify,List.getElem?_modify,List.getElem?_modify,List.getElem?_modify]
  cases nodes[j]? with
  | none => rfl
  | some node =>
    simp only [Option.map_eq_map,Option.map_some]
    split_ifs
    · rw [same]
    · rfl
    · rfl
    · rfl

theorem endAll_rename (nodes : List Node) (ended : List OpenNode) (offset : Nat) (extent : OpenNode → Extent)
    (k : Nat) (name : String) : endAll (nodes.modify k (·.rename name)) ended offset extent =
      (endAll nodes ended offset extent).modify k (·.rename name) := by
  unfold endAll
  induction ended generalizing nodes with
  | nil => rfl
  | cons entry rest ih =>
    have moved := modify_rename_comm nodes entry.index k name (·.endAt offset (extent entry)) fun _ => rfl
    rw [List.foldl_cons,List.foldl_cons,moved,ih]

theorem map_rename_of_ne (path : List OpenNode) (name : String) (others : ∀ entry ∈ path, entry.index ≠ k) :
    path.map (·.rename k name) = path := by
  have same : ∀ entry ∈ path, entry.rename k name = id entry := fun entry member => if_neg (others entry member)
  rw [List.map_congr_left same,List.map_id]

theorem index_rename (entry : OpenNode) (name : String) : (entry.rename k name).index = entry.index := by
  unfold OpenNode.rename
  split_ifs <;> rfl

theorem modify_append_of_lt (nodes rest : List Node) (change : Node → Node) (inside : k < nodes.length) :
    (nodes ++ rest).modify k change = nodes.modify k change ++ rest := by
  induction nodes generalizing k with
  | nil => exact absurd inside (Nat.not_lt_zero k)
  | cons node nodes ih =>
    cases k with
    | zero => rfl
    | succ k => exact congrArg (node :: ·) (ih (Nat.lt_of_succ_lt_succ inside))

theorem enter_rename (inside : k < outline.nodes.length) (length : Nat) (tag : Tag) (selfClosing : Bool) :
    (outline.rename k new).enter length tag selfClosing = (outline.enter length tag selfClosing).rename k new := by
  have parent : ((outline.path.map (·.rename k new)).head?.map (·.index)) = outline.path.head?.map (·.index) := by
    rw [List.head?_map,Option.map_map]
    exact congrArg (Option.map · outline.path.head?) (funext fun entry => index_rename entry new)
  have later (name : String) : OpenNode.rename k new ⟨outline.nodes.length,name⟩ = ⟨outline.nodes.length,name⟩ :=
    if_neg (Nat.ne_of_gt inside)
  unfold enter rename
  dsimp only
  rw [parent,List.length_modify,List.length_map,modify_append_of_lt _ _ _ inside]
  by_cases content : hasContent tag selfClosing (asciiLower tag.name) = true
  · rw [if_pos content,if_pos content,List.map_cons,later]
  · rw [if_neg content,if_neg content]

theorem endSibling_of_lasting (lasting : Lasting old) (offset : Nat) : outline.endSibling old offset = outline :=
  endSibling_stays outline (fun _ _ loose => absurd (loose.symm.trans lasting.stays) (by decide)) offset

theorem endSibling_in_lasting {top : OpenNode} {outer : List OpenNode} (path : outline.path = top :: outer)
    (lasting : Lasting top.name) (name : String) (offset : Nat) : outline.endSibling name offset = outline := by
  refine endSibling_stays outline (fun other first loose same => ?_) offset
  rw [path,List.head?_cons,Option.some.injEq] at first
  rw [← same,← first,lasting.stays] at loose
  contradiction

theorem endSibling_rename (named : outline.Named k old) (before : Lasting old) (after : Lasting new) (name : String) (offset : Nat) :
    (outline.rename k new).endSibling name offset = (outline.endSibling name offset).rename k new := by
  obtain ⟨nodes,path,owed⟩ := outline
  cases path with
  | nil => rfl
  | cons top outer =>
    by_cases here : top.index = k
    · have stays (name : String) (label : String) (lasting : Lasting label) :
          (isSelfEnding name && label == name) = false := by
        rw [Bool.and_eq_false_iff]
        by_cases same : label = name
        · exact Or.inl (same ▸ lasting.stays)
        · exact Or.inr (beq_eq_false_iff_ne.mpr same)
      have first := stays name top.name ((named.named top List.mem_cons_self here).symm ▸ before)
      have second := stays name new after
      have renamed : top.rename k new = ⟨top.index,new⟩ := if_pos here
      simp [rename,endSibling,renamed,first,second]
    · have same : top.rename k new = top := if_neg here
      simp only [rename,endSibling,List.map_cons,same]
      by_cases ends : (isSelfEnding name && top.name == name) = true
      · simp only [if_pos ends,endAll_rename]
      · simp only [if_neg ends,List.map_cons,same]

theorem OpenPath.endAll_found (opened : outline.OpenPath) {inner outer : List OpenNode}
    (path : outline.path = inner ++ outer) {entry : OpenNode} (member : entry ∈ inner) (offset : Nat)
    (extent : OpenNode → Extent) :
    ∃ node, (endAll outline.nodes inner offset extent)[entry.index]? = some node ∧ node.extent = extent entry := by
  obtain ⟨before,found,_⟩ := opened.pending entry (by rw [path]; exact List.mem_append_left _ member)
  have apart := opened.apart
  rw [path,List.pairwise_append] at apart
  have ended := getElem?_endAll_of_mem outline.nodes offset extent apart.1 member
  rw [found] at ended
  exact ⟨_,ended,rfl⟩

theorem OpenPath.owed_of_uncut (opened : outline.OpenPath) (settled : outline.owed = []) (length : Nat) (tag : Tag)
    (uncut : (outline.read length tag).Uncut) : (outline.read length tag).owed = [] := by
  have step := outline.step tag length
  generalize outline.read length tag = next at step uncut ⊢
  cases step with
  | markup => exact settled
  | opening selfClosing _ before sibling => exact sibling.owed.trans settled
  | closing _ next closing =>
    cases closing with
    | closes inner closed outer path =>
      have apart := opened.apart
      rw [path,List.pairwise_append] at apart
      rw [settled,List.append_nil,cutOff,List.map_eq_nil_iff,List.filter_eq_nil_iff]
      intro entry member cut
      obtain ⟨node,found,extent⟩ := opened.endAll_found path member tag.start innerExtent
      have other : closed.index ≠ entry.index := (apart.2.2 entry member closed List.mem_cons_self).symm
      refine uncut node (List.mem_of_getElem? (i := entry.index) ?_) ?_
      · rw [getElem?_modify_of_ne _ other]
        exact found
      · rw [extent,innerExtent,if_neg (by simpa using cut)]
    | pays others owed =>
      rw [settled] at owed
      contradiction
    | strays =>
      rw [settled,List.append_nil,List.map_eq_nil_iff]
      by_contra some_
      obtain ⟨entry,member⟩ := List.exists_mem_of_ne_nil _ some_
      obtain ⟨node,found,extent⟩ := opened.endAll_found (List.append_nil _).symm member tag.start fun _ => .crossed
      exact uncut node (List.mem_of_getElem? found) extent

theorem closing_rename (opened : outline.OpenPath) (named : outline.Named k old) (before : Lasting old)
    {tag : Tag} {next : Outline} (closing : outline.ClosingStep tag next) (settled : outline.owed = [])
    (after : next.owed = []) (kept : next.Past k → outline.Past k) :
    (outline.rename k new).readClosing tag = next.rename k new := by
  cases closing with
  | closes inner closed outer path label others =>
    have lasting : ∀ entry ∈ inner, entry.index ≠ k := by
      intro entry member here
      have name := named.named entry (by rw [path]; exact List.mem_append_left _ member) here
      have cut : entry.name ∈ cutOff inner :=
        List.mem_map_of_mem (List.mem_filter.mpr ⟨member,by rw [name,before.stays]; rfl⟩)
      rw [(List.append_eq_nil_iff.mp after).1] at cut
      exact List.not_mem_nil cut
    have apart := opened.apart
    rw [path,List.pairwise_append] at apart
    have other : closed.index ≠ k := by
      intro here
      have past := kept ⟨by rw [List.length_modify,length_endAll]; exact named.inside,fun entry member => ?_⟩
      · exact past.2 closed (by rw [path]; simp) here
      · exact fun same => (List.pairwise_cons.mp apart.2.1).1 entry member (here.trans same.symm)
    have path' : (outline.rename k new).path = inner ++ closed :: outer.map (·.rename k new) := by
      have same : closed.rename k new = closed := if_neg other
      rw [rename,path,List.map_append,List.map_cons,map_rename_of_ne inner new lasting,same]
    rw [readClosing_found _ tag inner _ closed path' label others]
    simp only [rename,endAll_rename]
    rw [modify_rename_comm _ _ _ _ (·.closeWith tag) fun _ => rfl]
  | pays others owed =>
    rw [settled] at owed
    contradiction
  | strays others debt =>
    have empty : outline.path = [] := List.map_eq_nil_iff.mp (List.append_eq_nil_iff.mp after).1
    have path' : (outline.rename k new).path = [] := by rw [rename,empty]; rfl
    have none : Avoids (asciiLower tag.name) (outline.rename k new).path := by rw [path']; simp [Avoids]
    rw [readClosing_stray (outline.rename k new) tag none debt]
    simp only [rename,empty,List.map_nil,endAll_rename]

theorem read_rename (opened : outline.OpenPath) (named : outline.Named k old) (before : Lasting old)
    (after : Lasting new) (length : Nat) (tag : Tag) (settled : outline.owed = [])
    (uncut : (outline.read length tag).Uncut) (kept : (outline.read length tag).Past k → outline.Past k) :
    (outline.rename k new).read length tag = (outline.read length tag).rename k new := by
  have owed := opened.owed_of_uncut settled length tag uncut
  cases kind : tag.kind with
  | markup => rw [read_of_markup kind,read_of_markup kind]
  | opening selfClosing =>
    have size := ((lasts_named k old).sibling named (outline.siblingStep (asciiLower tag.name) tag.start)).inside
    rw [read_of_opening kind,read_of_opening kind,endSibling_rename named before after,enter_rename size]
  | closing =>
    rw [read_of_closing kind] at kept owed ⊢
    rw [read_of_closing kind]
    exact closing_rename opened named before (outline.closingStep tag) settled owed kept

theorem readAll_rename (opened : outline.OpenPath) (named : outline.Named k old) (before : Lasting old)
    (after : Lasting new) (length : Nat) (tags : List Tag) (settled : outline.owed = [])
    (uncut : (tags.foldl (read length) outline).Uncut)
    (kept : (tags.foldl (read length) outline).Past k → outline.Past k) :
    tags.foldl (read length) (outline.rename k new) = (tags.foldl (read length) outline).rename k new := by
  induction tags generalizing outline with
  | nil => rfl
  | cons tag rest ih =>
    have next := lasts_openPath.read opened length tag
    have here := next.uncut_of_readAll length rest uncut
    have step := read_rename opened named before after length tag settled here fun past =>
      kept (past.readAll length rest).1
    rw [List.foldl_cons,List.foldl_cons,step]
    exact ih next ((lasts_named k old).read named length tag) (opened.owed_of_uncut settled length tag here) uncut
      fun past => ((kept past).readAll length [tag]).1

/-- What a tag does to an open element whose end is not left out. -/
inductive Outcome (k : Nat) (name : String) (outline next : Outline) (tag : Tag) : Prop
  | stays (entry : OpenNode) (member : entry ∈ next.path) (index : entry.index = k)
  | crossed (past : next.Past k) (node : Node) (found : next.nodes[k]? = some node) (extent : node.extent = .crossed)
  | closed (kind : tag.kind = .closing) (label : asciiLower tag.name = name) (inner outer : List OpenNode)
      (path : outline.path = inner ++ ⟨k,name⟩ :: outer) (others : Avoids name inner) (past : next.Past k)
      (node : Node) (found : next.nodes[k]? = some node) (extent : node.extent = .closed)
      (closeStart : node.closeStart = tag.start) (stop : node.stop = tag.stop)

theorem still_open (lasting : Lasting old) {entry : OpenNode} (name : entry.name = old)
    (member : entry ∈ outline.path) {label : String} {offset : Nat} {next : Outline}
    (sibling : outline.SiblingStep label offset next) : entry ∈ next.path := by
  cases sibling with
  | stays => exact member
  | ends top outer path loose same =>
    rw [path] at member
    rcases List.mem_cons.mp member with rfl | outside
    · -- The innermost element is ended only if its end may be left out.
      rw [← same,name,lasting.stays] at loose
      contradiction
    · exact outside

theorem closing_outcome (opened : outline.OpenPath) (named : outline.Named k old) (lasting : Lasting old)
    {entry : OpenNode} (member : entry ∈ outline.path) (index : entry.index = k) {tag : Tag} {next : Outline}
    (kind : tag.kind = .closing) (closing : outline.ClosingStep tag next) : Outcome k old outline next tag := by
  have name := named.named entry member index
  have after := lasts_openPath.closing opened closing
  cases closing with
  | closes inner closed outer path label others =>
    have apart := opened.apart
    rw [path,List.pairwise_append] at apart
    rw [path] at member
    rcases List.mem_append.mp member with within | here
    · obtain ⟨node,found,extent⟩ := opened.endAll_found path within tag.start innerExtent
      have other : closed.index ≠ entry.index := (apart.2.2 entry within closed List.mem_cons_self).symm
      have crossed : node.extent = .crossed := by rw [extent,innerExtent,name,lasting.stays]; rfl
      rw [← getElem?_modify_of_ne (·.closeWith tag) other,index] at found
      exact .crossed (after.past found (by rw [crossed]; simp)) node found crossed
    · rcases List.mem_cons.mp here with rfl | outside
      · obtain ⟨old_,found,_⟩ := opened.pending entry (by rw [path]; exact member)
        have still : (endAll outline.nodes inner tag.start innerExtent)[k]? = some old_ := by
          rw [getElem?_endAll,← index,found]
          exact fun other among => index ▸ apart.2.2 other among entry List.mem_cons_self
        have ended : ((endAll outline.nodes inner tag.start innerExtent).modify entry.index
            (·.closeWith tag))[k]? = some (old_.closeWith tag) := by
          rw [index,List.getElem?_modify_eq,still]
          rfl
        obtain ⟨i,name_⟩ := entry
        obtain rfl : i = k := index
        obtain rfl : name_ = old := name
        have same : asciiLower tag.name = name_ := label.symm
        exact .closed kind same inner outer path (same ▸ others) (after.past ended (by simp [Node.closeWith])) _
          ended rfl rfl rfl
      · exact .stays entry outside index
  | pays => exact .stays entry member index
  | strays =>
    obtain ⟨node,found,extent⟩ := opened.endAll_found (List.append_nil _).symm member tag.start fun _ => .crossed
    rw [index] at found
    exact .crossed (after.past found (by rw [extent]; simp)) node found extent

theorem outcome (opened : outline.OpenPath) (named : outline.Named k old) (lasting : Lasting old)
    {entry : OpenNode} (member : entry ∈ outline.path) (index : entry.index = k) {length : Nat} {tag : Tag}
    {next : Outline} (step : Step length outline tag next) : Outcome k old outline next tag := by
  cases step with
  | markup => exact .stays entry member index
  | opening selfClosing _ before sibling =>
    have still := still_open lasting (named.named entry member index) member sibling
    refine .stays entry ?_ index
    rw [enter]
    dsimp only
    split_ifs
    · exact List.mem_cons_of_mem _ still
    · exact still
  | closing kind next closing => exact closing_outcome opened named lasting member index kind closing

theorem exists_closing (opened : outline.OpenPath) (named : outline.Named k old) (lasting : Lasting old)
    {entry : OpenNode} (member : entry ∈ outline.path) (index : entry.index = k) (length : Nat) (tags : List Tag)
    (node : Node) (found : (tags.foldl (read length) outline).nodes[k]? = some node)
    (known : node.extent.isKnown = true) :
    ∃ middle closing more inner outer, tags = middle ++ closing :: more ∧ closing.kind = .closing ∧
      asciiLower closing.name = old ∧ (middle.foldl (read length) outline).path = inner ++ ⟨k,old⟩ :: outer ∧
      Avoids old inner ∧ node.extent = .closed ∧ node.closeStart = closing.start ∧ node.stop = closing.stop := by
  induction tags generalizing outline entry with
  | nil =>
    obtain ⟨other,present,extent⟩ := opened.pending entry member
    rw [index] at present
    obtain rfl := Option.some.inj (found.symm.trans present)
    rw [extent] at known
    contradiction
  | cons tag rest ih =>
    have final (last : Node) (past : (outline.read length tag).Past k)
        (present : (outline.read length tag).nodes[k]? = some last) : node = last :=
      Option.some.inj (found.symm.trans ((past.readAll length rest).2.trans present))
    cases outcome opened named lasting member index (outline.step tag length) with
    | stays entry member index =>
      obtain ⟨middle,closing,more,inner,outer,rfl,facts⟩ := ih (lasts_openPath.read opened length tag)
        ((lasts_named k old).read named length tag) member index found
      exact ⟨tag :: middle,closing,more,inner,outer,rfl,facts⟩
    | crossed past last present extent =>
      rw [final last past present,extent] at known
      contradiction
    | closed kind label inner outer path others past last present extent closeStart stop =>
      obtain rfl := final last past present
      exact ⟨[],tag,rest,inner,outer,rfl,kind,label,path,others,extent,closeStart,stop⟩

theorem OpenPath.settled_of_uncut (opened : outline.OpenPath) (settled : outline.owed = []) (length : Nat)
    (tags : List Tag) (uncut : (tags.foldl (read length) outline).Uncut) :
    (tags.foldl (read length) outline).owed = [] := by
  induction tags generalizing outline with
  | nil => exact settled
  | cons tag rest ih =>
    have next := lasts_openPath.read opened length tag
    exact ih next (opened.owed_of_uncut settled length tag (next.uncut_of_readAll length rest uncut)) uncut

theorem OpenPath.lt_length (opened : outline.OpenPath) {entry : OpenNode} (member : entry ∈ outline.path) :
    entry.index < outline.nodes.length := by
  obtain ⟨node,found,_⟩ := opened.pending entry member
  exact (List.getElem?_eq_some_iff.mp found).1

theorem read_lasting (length : Nat) (tag : Tag) (selfClosing : Bool) (kind : tag.kind = .opening selfClosing)
    (lasting : Lasting (asciiLower tag.name)) : outline.read length tag = outline.enter length tag selfClosing := by
  rw [read_of_opening kind,endSibling_of_lasting lasting]

theorem OpenPath.named_opening (opened : outline.OpenPath) (length : Nat) (tag : Tag) (selfClosing : Bool)
    (kind : tag.kind = .opening selfClosing) (lasting : Lasting (asciiLower tag.name)) :
    (outline.read length tag).Named outline.nodes.length (asciiLower tag.name) := by
  rw [read_lasting length tag selfClosing kind lasting,Outline.enter]
  refine ⟨by simp,fun entry member here => ?_⟩
  dsimp only at member
  split_ifs at member
  · rcases List.mem_cons.mp member with rfl | outer
    · rfl
    · exact absurd here (Nat.ne_of_lt (opened.lt_length outer))
  · exact absurd here (Nat.ne_of_lt (opened.lt_length member))

theorem read_opening_rename (opened : outline.OpenPath) (length : Nat) (tag : Tag) (selfClosing : Bool)
    (kind : tag.kind = .opening selfClosing) (name : String) (before : Lasting (asciiLower tag.name))
    (after : Lasting (asciiLower name)) : outline.read length (tag.withName name) =
      (outline.read length tag).rename outline.nodes.length (asciiLower name) := by
  have others : ∀ entry ∈ outline.path, entry.index ≠ outline.nodes.length :=
    fun entry member => Nat.ne_of_lt (opened.lt_length member)
  rw [read_lasting length tag selfClosing kind before,read_lasting length (tag.withName name) selfClosing kind after]
  unfold enter rename
  have content : hasContent (tag.withName name) selfClosing (asciiLower name) =
      hasContent tag selfClosing (asciiLower tag.name) := by
    rw [hasContent,hasContent,before.content,after.content]
    rfl
  have extent : openingExtent (tag.withName name) selfClosing (asciiLower name) =
      openingExtent tag selfClosing (asciiLower tag.name) := by
    rw [openingExtent,openingExtent,before.content,after.content]
    rfl
  have label : (tag.withName name).name = name := rfl
  dsimp only
  rw [modify_middle,label,content,extent]
  have here : OpenNode.rename outline.nodes.length (asciiLower name) ⟨outline.nodes.length,asciiLower tag.name⟩ =
      ⟨outline.nodes.length,asciiLower name⟩ := if_pos rfl
  by_cases open_ : hasContent tag selfClosing (asciiLower tag.name) = true
  · rw [if_pos open_,if_pos open_,List.map_cons,here,map_rename_of_ne _ _ others]
    rfl
  · rw [if_neg open_,if_neg open_,map_rename_of_ne _ _ others]
    rfl

theorem read_closing_rename (opened : outline.OpenPath) (length : Nat) (tag : Tag) (kind : tag.kind = .closing)
    (name : String) {inner outer : List OpenNode} (path : outline.path = inner ++ ⟨k,asciiLower tag.name⟩ :: outer)
    (others : Avoids (asciiLower tag.name) inner) (settled : outline.owed = [])
    (uncut : (outline.read length tag).Uncut) (after : Lasting (asciiLower name)) :
    (outline.rename k (asciiLower name)).read length (tag.withName name) =
      (outline.read length tag).rename k (asciiLower name) := by
  have owed := opened.owed_of_uncut settled length tag uncut
  have apart := opened.apart
  rw [path,List.pairwise_append,List.pairwise_cons] at apart
  have found := readClosing_found outline tag inner outer _ path rfl others
  have again : (tag.withName name).kind = .closing := kind
  rw [read_of_closing kind,found] at owed
  rw [read_of_closing kind,read_of_closing again,found]
  have left : ∀ entry ∈ inner, entry.index ≠ k :=
    fun entry member => apart.2.2 entry member _ List.mem_cons_self
  have right : ∀ entry ∈ outer, entry.index ≠ k := fun entry member => (apart.2.1.1 entry member).symm
  have below : Avoids (asciiLower name) inner := by
    intro entry member same
    have cut : entry.name ∈ cutOff inner :=
      List.mem_map_of_mem (List.mem_filter.mpr ⟨member,by rw [same,after.stays]; rfl⟩)
    rw [(List.append_eq_nil_iff.mp owed).1] at cut
    exact List.not_mem_nil cut
  have path' : (outline.rename k (asciiLower name)).path = inner ++ ⟨k,asciiLower name⟩ :: outer := by
    have here : OpenNode.rename k (asciiLower name) ⟨k,asciiLower tag.name⟩ = ⟨k,asciiLower name⟩ := if_pos rfl
    rw [rename,path,List.map_append,List.map_cons,map_rename_of_ne inner _ left,map_rename_of_ne outer _ right,here]
  rw [readClosing_found _ (tag.withName name) inner outer _ path' rfl below]
  simp only [rename,endAll_rename,map_rename_of_ne outer _ right]
  rw [modify_rename_comm _ _ _ _ (·.closeWith (tag.withName name)) fun _ => rfl]
  rfl

theorem ofTags_openPath (length : Nat) (tags : List Tag) : (ofTags length tags).OpenPath :=
  lasts_openPath.readAll ⟨List.Pairwise.nil,by simp⟩ length tags

theorem ofTags_append (length : Nat) (front : List Tag) (opening : Tag) (rest : List Tag) :
    ofTags length (front ++ opening :: rest) =
      rest.foldl (read length) ((ofTags length front).read length opening) := by
  rw [ofTags,List.foldl_append,List.foldl_cons]
  rfl

/-- What an opening tag starts has the index after all elements before it, and what the tag says of it is final. -/
theorem getElem?_opened (length : Nat) (front rest : List Tag) (tag : Tag) (selfClosing : Bool)
    (kind : tag.kind = .opening selfClosing) :
    ∃ node, (ofTags length (front ++ tag :: rest)).nodes[(ofTags length front).nodes.length]? = some node ∧
      node.opened = (asciiLower tag.name,tag.start,tag.stop,
        ((ofTags length front).endSibling (asciiLower tag.name) tag.start).path.head?.map (·.index),
        ((ofTags length front).endSibling (asciiLower tag.name) tag.start).path.length,
        !(ofTags length front).owed.isEmpty) := by
  have sibling := (ofTags length front).siblingStep (asciiLower tag.name) tag.start
  have same := sibling.map_nodes Node.opened fun _ _ _ => rfl
  have kept : ((ofTags length front).read length tag).nodes.map Node.opened <+:
      (ofTags length (front ++ tag :: rest)).nodes.map Node.opened := by
    rw [ofTags_append]
    exact (lasts_opened _).readAll List.prefix_rfl length rest
  rw [read_of_opening kind,enter,List.map_append,same] at kept
  obtain ⟨more,whole⟩ := kept
  have here := congrArg (·[(ofTags length front).nodes.length]?) whole
  simp only [List.map_cons,List.map_nil,List.append_assoc,List.singleton_append,List.getElem?_map] at here
  rw [List.getElem?_append_right (by simp)] at here
  simp only [List.length_map,Nat.sub_self,List.getElem?_cons_zero,sibling.owed] at here
  obtain ⟨node,found,opened⟩ := Option.map_eq_some_iff.mp here.symm
  exact ⟨node,found,opened⟩

theorem exists_ended (length : Nat) (front rest : List Tag) (opening : Tag) (selfClosing : Bool)
    (kind : opening.kind = .opening selfClosing) (terminated : opening.terminated = true)
    (lasting : Lasting (asciiLower opening.name)) (node : Node)
    (found : (ofTags length (front ++ opening :: rest)).nodes[(ofTags length front).nodes.length]? = some node)
    (known : node.extent.isKnown = true) (filled : node.openStop < node.closeStart) :
    selfClosing = false ∧ ∃ middle closing more inner outer, rest = middle ++ closing :: more ∧
      closing.kind = .closing ∧ asciiLower closing.name = asciiLower opening.name ∧
      (middle.foldl (read length) ((ofTags length front).read length opening)).path =
        inner ++ ⟨(ofTags length front).nodes.length,asciiLower opening.name⟩ :: outer ∧
      Avoids (asciiLower opening.name) inner ∧ node.extent = .closed ∧ node.closeStart = closing.start ∧
      node.stop = closing.stop := by
  have start := ofTags_openPath length front
  have opened := lasts_openPath.read start length opening
  have named := start.named_opening length opening selfClosing kind lasting
  have entered : (ofTags length front).read length opening = (ofTags length front).enter length opening selfClosing :=
    read_lasting length opening selfClosing kind lasting
  rw [ofTags_append] at found
  cases selfClosing with
  | true =>
    have past : ((ofTags length front).read length opening).Past (ofTags length front).nodes.length := by
      refine ⟨named.inside,fun entry member => Nat.ne_of_lt (start.lt_length ?_)⟩
      rw [entered] at member
      simpa [enter,hasContent] using member
    rw [(past.readAll length rest).2,entered] at found
    simp only [enter,List.getElem?_concat_length] at found
    obtain rfl := Option.some.inj found
    simp [openingExtent,terminated] at filled
  | false =>
    have content : hasContent opening false (asciiLower opening.name) = true := by
      simp [hasContent,terminated,lasting.content]
    have member : ⟨(ofTags length front).nodes.length,asciiLower opening.name⟩ ∈
        ((ofTags length front).read length opening).path := by
      rw [entered,enter]
      dsimp only
      rw [if_pos content]
      exact List.mem_cons_self
    exact ⟨rfl,exists_closing opened named lasting member rfl length rest node found known⟩

theorem closeStart_of_first (length : Nat) (front more : List Tag) (opening closing : Tag)
    (opens : opening.kind = .opening false) (terminated : opening.terminated = true) (closes : closing.kind = .closing)
    (lasting : Lasting (asciiLower opening.name)) (same : asciiLower closing.name = asciiLower opening.name)
    (node : Node) (found : (ofTags length (front ++ opening :: closing :: more)).nodes[
      (ofTags length front).nodes.length]? = some node) : node.closeStart = closing.start := by
  have start := ofTags_openPath length front
  have content : hasContent opening false (asciiLower opening.name) = true := by
    simp [hasContent,terminated,lasting.content]
  have entered : (ofTags length front).read length opening = (ofTags length front).enter length opening false :=
    read_lasting length opening false opens lasting
  have path : ((ofTags length front).read length opening).path =
      ⟨(ofTags length front).nodes.length,asciiLower opening.name⟩ :: (ofTags length front).path := by
    rw [entered,enter]
    exact if_pos content
  have closed := readClosing_found ((ofTags length front).read length opening) closing [] _ _ path same.symm
    fun _ member => absurd member List.not_mem_nil
  have past : (((ofTags length front).read length opening).readClosing closing).Past
      (ofTags length front).nodes.length := by
    refine ⟨?_,fun entry member => ?_⟩
    · have inside := (start.named_opening length opening false opens lasting).inside
      simpa [closed,endAll] using inside
    · rw [closed] at member
      exact Nat.ne_of_lt (start.lt_length member)
  rw [ofTags_append,List.foldl_cons,read_of_closing closes,(past.readAll length more).2,closed] at found
  obtain ⟨before,_,rfl⟩ := getElem?_modify_some found
  rw [if_pos rfl]
  rfl

theorem ofTags_rename (length : Nat) (front middle more : List Tag) (opening closing : Tag) (selfClosing : Bool)
    (name : String) (opens : opening.kind = .opening selfClosing) (closes : closing.kind = .closing)
    (same : asciiLower closing.name = asciiLower opening.name) (before : Lasting (asciiLower opening.name))
    (after : Lasting (asciiLower name)) {inner outer : List OpenNode}
    (path : (middle.foldl (read length) ((ofTags length front).read length opening)).path =
      inner ++ ⟨(ofTags length front).nodes.length,asciiLower opening.name⟩ :: outer)
    (others : Avoids (asciiLower opening.name) inner)
    (uncut : (ofTags length (front ++ opening :: (middle ++ closing :: more))).Uncut) :
    ofTags length (front ++ opening.withName name :: (middle ++ closing.withName name :: more)) =
      (ofTags length (front ++ opening :: (middle ++ closing :: more))).rename
        (ofTags length front).nodes.length (asciiLower name) := by
  have parts (opening closing : Tag) : ofTags length (front ++ opening :: (middle ++ closing :: more)) =
      more.foldl (read length)
        ((middle.foldl (read length) ((ofTags length front).read length opening)).read length closing) := by
    rw [ofTags_append,List.foldl_append,List.foldl_cons]
  rw [parts] at uncut
  rw [parts,parts]
  -- What each of the three stretches between the two tags needs of the outline before it.
  have start := ofTags_openPath length front
  have first := lasts_openPath.read start length opening
  have second := lasts_openPath.readAll first length middle
  have third := lasts_openPath.read second length closing
  have uncut₃ := third.uncut_of_readAll length more uncut
  have uncut₂ := second.uncut_of_readAll length [closing] uncut₃
  have uncut₁ := first.uncut_of_readAll length middle uncut₂
  have none : (ofTags length front).owed = [] :=
    OpenPath.settled_of_uncut ⟨List.Pairwise.nil,by simp⟩ rfl length front
      (start.uncut_of_readAll length [opening] uncut₁)
  have settled₁ := start.owed_of_uncut none length opening uncut₁
  have settled₂ := first.settled_of_uncut settled₁ length middle uncut₂
  have settled₃ := second.owed_of_uncut settled₂ length closing uncut₃
  have named₁ := start.named_opening length opening selfClosing opens before
  have named₂ := (lasts_named _ _).readAll named₁ length middle
  have named₃ := (lasts_named _ _).read named₂ length closing
  have apart := second.apart
  rw [path,List.pairwise_append,List.pairwise_cons] at apart
  have open_ (past : (middle.foldl (read length) ((ofTags length front).read length opening)).Past
      (ofTags length front).nodes.length) : False :=
    past.2 _ (by rw [path]; exact List.mem_append_right _ List.mem_cons_self) rfl
  have ended : ((middle.foldl (read length) ((ofTags length front).read length opening)).read length closing).Past
      (ofTags length front).nodes.length := by
    refine ⟨named₃.inside,fun entry member => ?_⟩
    rw [read_of_closing closes,readClosing_found _ closing inner outer _ path same.symm (same ▸ others)] at member
    exact (apart.2.1.1 entry member).symm
  rw [read_opening_rename start length opening selfClosing opens name before after,
    readAll_rename first named₁ before after length middle settled₁ uncut₂ fun past => (open_ past).elim,
    read_closing_rename second length closing closes name (same ▸ path) (same ▸ others) settled₂ uncut₃ after,
    readAll_rename third named₃ before after length more settled₃ uncut fun _ => ended]

end Outline

end AccessibleMarkup.Markup
