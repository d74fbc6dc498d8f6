import AccessibleMarkup.Proofs.OutlineRenaming

/-! How an open element comes to its end where nothing is cut off: a closing tag of its own ends it, or it is left
when another tag ends what it stands in or starts its next sibling. -/
namespace AccessibleMarkup.Markup

open Text

namespace Outline

def leave (outline : Outline) (ended outer : List OpenNode) (offset : Nat) : Outline :=
  { outline with
    nodes := endAll outline.nodes ended offset fun _ => .implied
    path := outer }

/-- How a tag ends an open element with the elements `inner` in it and `outer` around it. -/
inductive Ending (length : Nat) (inner : List OpenNode) (entry : OpenNode) (outer : List OpenNode)
    (outline : Outline) (node : Node) (tag : Tag) : Prop
  | closed (kind : tag.kind = .closing) (label : asciiLower tag.name = entry.name) (others : Avoids entry.name inner)
      (extent : node.extent = .closed) (stop : node.stop = tag.stop)
  | implied (loose : ∀ other ∈ inner ++ [entry], isSelfEnding other.name = true)
      (left : outline.read length tag = (outline.leave (inner ++ [entry]) outer tag.start).read length tag)
      (extent : node.extent = .implied) (stop : node.stop = tag.start)

/-- What a tag does to an open element with the elements `inner` in it and `outer` around it: it touches only
elements in it, or it ends it. -/
inductive Turn (length : Nat) (inner : List OpenNode) (entry : OpenNode) (outer : List OpenNode)
    (outline : Outline) (tag : Tag) : Prop
  | passes (kind : tag.kind = .markup)
  | opens (selfClosing : Bool) (kind : tag.kind = .opening selfClosing) (ended rest : List OpenNode)
      (parts : inner = ended ++ rest)
      (left : outline.endSibling (asciiLower tag.name) tag.start = outline.leave ended (rest ++ entry :: outer) tag.start)
  | closes (kind : tag.kind = .closing) (front back : List OpenNode) (closed : OpenNode)
      (parts : inner = front ++ closed :: back) (label : closed.name = asciiLower tag.name)
      (others : Avoids (asciiLower tag.name) front)
  | ends (node : Node) (found : (outline.read length tag).nodes[entry.index]? = some node)
      (past : (outline.read length tag).Past entry.index) (ending : Ending length inner entry outer outline node tag)

variable {outline : Outline} {inner outer : List OpenNode} {entry : OpenNode} {length : Nat} {tag : Tag}

theorem endAll_congr (nodes : List Node) (ended : List OpenNode) (offset : Nat) {extent other : OpenNode → Extent}
    (same : ∀ entry ∈ ended, extent entry = other entry) :
    endAll nodes ended offset extent = endAll nodes ended offset other := by
  unfold endAll
  induction ended generalizing nodes with
  | nil => rfl
  | cons entry rest ih =>
    rw [List.foldl_cons,List.foldl_cons,same entry List.mem_cons_self]
    exact ih _ fun other member => same other (List.mem_cons_of_mem _ member)

theorem OpenPath.endAll_stop (opened : outline.OpenPath) {ended rest : List OpenNode}
    (path : outline.path = ended ++ rest) (member : entry ∈ ended) (offset : Nat) (extent : OpenNode → Extent) :
    ∃ node, (endAll outline.nodes ended offset extent)[entry.index]? = some node ∧ node.extent = extent entry ∧
      node.stop = offset := by
  obtain ⟨node,found,given⟩ := opened.endAll_found path member offset extent
  obtain ⟨_,_,_,_,rfl⟩ := endAll_ended _ _ _ _ _ _ found ⟨entry,member,rfl⟩
  exact ⟨_,found,given,rfl⟩

theorem Turn.open_or_ended (turn : Turn length inner entry outer outline tag) (path : outline.path = inner ++ entry :: outer) :
    (∃ more, (outline.read length tag).path = more ++ entry :: outer) ∨
      ∃ node, (outline.read length tag).nodes[entry.index]? = some node ∧
        (outline.read length tag).Past entry.index ∧ Ending length inner entry outer outline node tag := by
  cases turn with
  | passes kind =>
    refine Or.inl ⟨inner,?_⟩
    rw [read_of_markup kind]
    exact path
  | opens selfClosing kind ended rest parts left =>
    left
    rw [read_of_opening kind,left,enter]
    dsimp only
    split_ifs
    · exact ⟨_ :: rest,rfl⟩
    · exact ⟨rest,rfl⟩
  | closes kind front back closed parts label others =>
    refine Or.inl ⟨back,?_⟩
    rw [parts,List.append_assoc] at path
    rw [read_of_closing kind]
    exact congrArg Outline.path (readClosing_found outline tag front _ closed path label others)
  | ends node found past ending => exact Or.inr ⟨node,found,past,ending⟩

theorem endSibling_eq_leave {top : OpenNode} {rest : List OpenNode} (path : outline.path = top :: rest)
    (name : String) (offset : Nat) : outline.endSibling name offset =
      if isSelfEnding name && top.name == name then outline.leave [top] rest offset
      else outline.leave [] (top :: rest) offset := by
  split_ifs with ends
  · rw [Bool.and_eq_true,beq_iff_eq] at ends
    exact endSibling_ends outline path ends.1 ends.2 offset
  · have spared (other : OpenNode) (first : outline.path.head? = some other) (loose : isSelfEnding name = true)
        (same : other.name = name) : False := by
      rw [path,List.head?_cons,Option.some.injEq] at first
      exact ends (by rw [first,same,loose,beq_self_eq_true,Bool.and_self])
    rw [endSibling_stays outline spared,leave,← path]
    rfl

theorem OpenPath.ending_of_sibling (opened : outline.OpenPath) (path : outline.path = entry :: outer)
    (spared : ∀ top rest, outer = top :: rest → (isSelfEnding entry.name && top.name == entry.name) = false)
    {selfClosing : Bool} (kind : tag.kind = .opening selfClosing)
    (ends : (isSelfEnding (asciiLower tag.name) && entry.name == asciiLower tag.name) = true) :
    ∃ node, (outline.read length tag).nodes[entry.index]? = some node ∧
      Ending length [] entry outer outline node tag := by
  obtain ⟨loose,same⟩ := Bool.and_eq_true_iff.mp ends
  have same : entry.name = asciiLower tag.name := beq_iff_eq.mp same
  have left := endSibling_eq_leave path (asciiLower tag.name) tag.start
  rw [if_pos ends] at left
  have once : (outline.leave [entry] outer tag.start).endSibling (asciiLower tag.name) tag.start =
      outline.leave [entry] outer tag.start := by
    cases around : outer with
    | nil => rfl
    | cons top rest =>
      have other := spared top rest around
      rw [same] at other
      rw [endSibling_eq_leave rfl,other]
      rfl
  obtain ⟨node,found,extent,stop⟩ := opened.endAll_stop (show outline.path = [entry] ++ outer from path)
    (List.mem_singleton_self entry) tag.start fun _ => .implied
  refine ⟨node,?_,.implied (fun other member => ?_) ?_ extent stop⟩
  · rw [read_of_opening kind,left]
    exact (List.getElem?_append_left (List.getElem?_eq_some_iff.mp found).1).trans found
  · rw [List.mem_singleton.mp member,same]
    exact loose
  · rw [read_of_opening kind,read_of_opening kind,left]
    exact congrArg (fun outline => Outline.enter outline length tag selfClosing) once.symm

theorem OpenPath.ending_of_own (opened : outline.OpenPath) (path : outline.path = inner ++ entry :: outer)
    (kind : tag.kind = .closing) (label : asciiLower tag.name = entry.name) (others : Avoids entry.name inner) :
    ∃ node, (outline.read length tag).nodes[entry.index]? = some node ∧
      Ending length inner entry outer outline node tag := by
  have found := readClosing_found outline tag inner outer entry path label.symm (label ▸ others)
  have apart := opened.apart
  rw [path,List.pairwise_append] at apart
  obtain ⟨before,present,_⟩ := opened.pending entry (by rw [path]; simp)
  have still : (endAll outline.nodes inner tag.start innerExtent)[entry.index]? = some before := by
    rw [getElem?_endAll,present]
    exact fun other member => apart.2.2 other member entry List.mem_cons_self
  refine ⟨before.closeWith tag,?_,.closed kind label others rfl rfl⟩
  rw [read_of_closing kind,found,List.getElem?_modify_eq,still]
  rfl

theorem OpenPath.ending_of_outer (opened : outline.OpenPath) {between back : List OpenNode} {closed : OpenNode}
    (path : outline.path = (inner ++ [entry]) ++ (between ++ closed :: back)) (kind : tag.kind = .closing)
    (label : closed.name = asciiLower tag.name)
    (others : Avoids (asciiLower tag.name) ((inner ++ [entry]) ++ between))
    (owed : (outline.read length tag).owed = []) :
    ∃ node, (outline.read length tag).nodes[entry.index]? = some node ∧
      Ending length inner entry (between ++ closed :: back) outline node tag := by
  have whole : outline.path = ((inner ++ [entry]) ++ between) ++ closed :: back := by rw [path]; simp
  have found := readClosing_found outline tag _ back closed whole label others
  rw [read_of_closing kind,found] at owed
  have loose : ∀ other ∈ (inner ++ [entry]) ++ between, isSelfEnding other.name = true := by
    intro other member
    by_contra lasting
    have listed : other.name ∈ cutOff ((inner ++ [entry]) ++ between) :=
      List.mem_map_of_mem (List.mem_filter.mpr ⟨member,by simpa using lasting⟩)
    rw [(List.append_eq_nil_iff.mp owed).1] at listed
    exact List.not_mem_nil listed
  have left : outline.read length tag =
      (outline.leave (inner ++ [entry]) (between ++ closed :: back) tag.start).read length tag := by
    have again := readClosing_found (outline.leave (inner ++ [entry]) (between ++ closed :: back) tag.start) tag
      between back closed rfl label fun other member => others other (List.mem_append_right _ member)
    have bare : cutOff between = [] := by
      rw [cutOff,List.map_eq_nil_iff,List.filter_eq_nil_iff]
      intro other member
      rw [loose other (List.mem_append_right _ member)]
      decide
    have same : endAll outline.nodes (inner ++ [entry]) tag.start innerExtent =
        endAll outline.nodes (inner ++ [entry]) tag.start fun _ => .implied :=
      endAll_congr _ _ _ fun other member => if_pos (loose other (List.mem_append_left _ member))
    rw [read_of_closing kind,read_of_closing kind,found,again,(List.append_eq_nil_iff.mp owed).1,bare,endAll_append,
      same]
    rfl
  obtain ⟨node,stopped,extent,stop⟩ := @OpenPath.endAll_stop outline entry opened _ _ whole (by simp) tag.start
    innerExtent
  have apart := opened.apart
  rw [whole,List.pairwise_append] at apart
  have other : closed.index ≠ entry.index := (apart.2.2 entry (by simp) closed List.mem_cons_self).symm
  refine ⟨node,?_,.implied (fun other member => loose other (List.mem_append_left _ member)) left ?_ stop⟩
  · rw [read_of_closing kind,found,getElem?_modify_of_ne _ other]
    exact stopped
  · exact extent.trans (if_pos (loose entry (by simp)))

/-- Where nothing is cut off, every tag touches only elements in an open element or ends it. -/
theorem OpenPath.turn (opened : outline.OpenPath) (settled : outline.owed = [])
    (path : outline.path = inner ++ entry :: outer)
    (spared : ∀ top rest, outer = top :: rest → (isSelfEnding entry.name && top.name == entry.name) = false)
    (uncut : (outline.read length tag).Uncut) : Turn length inner entry outer outline tag := by
  have next := lasts_openPath.read opened length tag
  have owed := opened.owed_of_uncut settled length tag uncut
  have finish : (∃ node, (outline.read length tag).nodes[entry.index]? = some node ∧
      Ending length inner entry outer outline node tag) → Turn length inner entry outer outline tag := by
    rintro ⟨node,found,ending⟩
    refine .ends node found (next.past found ?_) ending
    cases ending with
    | closed _ _ _ extent => simp [extent]
    | implied _ _ extent => simp [extent]
  -- An opening tag ends at most the element on top. A closing tag ends all down to the one it names.
  cases kind : tag.kind with
  | markup => exact .passes kind
  | opening selfClosing =>
    cases inner with
    | nil =>
      have left := endSibling_eq_leave path (asciiLower tag.name) tag.start
      split_ifs at left with ends
      · exact finish (opened.ending_of_sibling path spared kind ends)
      · exact .opens selfClosing kind [] [] rfl left
    | cons top rest =>
      have left := endSibling_eq_leave path (asciiLower tag.name) tag.start
      split_ifs at left
      · exact .opens selfClosing kind [top] rest rfl left
      · exact .opens selfClosing kind [] (top :: rest) rfl left
  | closing =>
    obtain ⟨front,closed,back,split,label,others⟩ | others := split_path outline.path (asciiLower tag.name)
    · have parts := split
      rw [path] at parts
      rcases List.append_eq_append_iff.mp parts with ⟨between,rfl,rest⟩ | ⟨between,rfl,rest⟩
      · cases between with
        | nil =>
          obtain ⟨rfl,rfl⟩ := List.cons.inj rest
          rw [List.append_nil] at others
          exact finish (opened.ending_of_own path kind label.symm (label ▸ others))
        | cons other between =>
          obtain ⟨rfl,rfl⟩ := List.cons.inj rest
          have around : (inner ++ [entry]) ++ between = inner ++ entry :: between := by simp
          exact finish (opened.ending_of_outer (by rw [path]; simp) kind label (around ▸ others) owed)
      · cases between with
        | nil =>
          obtain ⟨rfl,rfl⟩ := List.cons.inj rest
          rw [List.append_nil] at path finish ⊢
          exact finish (opened.ending_of_own path kind label.symm (label ▸ others))
        | cons other between =>
          obtain ⟨rfl,rfl⟩ := List.cons.inj rest
          exact .closes kind front between closed rfl label others
    · rw [read_of_closing kind,readClosing_stray outline tag others (by rw [settled]; rfl),path] at owed
      simp at owed

theorem OpenPath.exists_ending (opened : outline.OpenPath) (settled : outline.owed = [])
    (path : outline.path = inner ++ entry :: outer)
    (spared : ∀ top rest, outer = top :: rest → (isSelfEnding entry.name && top.name == entry.name) = false)
    (length : Nat) (tags : List Tag) (uncut : (tags.foldl (read length) outline).Uncut) {node : Node}
    (found : (tags.foldl (read length) outline).nodes[entry.index]? = some node)
    (known : node.extent.isKnown = true) :
    ∃ middle tag more inner, tags = middle ++ tag :: more ∧
      (middle.foldl (read length) outline).path = inner ++ entry :: outer ∧
      Ending length inner entry outer (middle.foldl (read length) outline) node tag := by
  induction tags generalizing outline inner with
  | nil =>
    obtain ⟨other,present,extent⟩ := opened.pending entry (by rw [path]; simp)
    obtain rfl := Option.some.inj (found.symm.trans present)
    rw [extent] at known
    contradiction
  | cons tag rest ih =>
    have next := lasts_openPath.read opened length tag
    have here := next.uncut_of_readAll length rest uncut
    rcases (opened.turn settled path spared here).open_or_ended path with ⟨more,still⟩ | ⟨last,present,past,ending⟩
    · obtain ⟨middle,ender,later,within,rfl,facts⟩ :=
        ih next (opened.owed_of_uncut settled length tag here) still uncut found
      exact ⟨tag :: middle,ender,later,within,rfl,facts⟩
    · obtain rfl := Option.some.inj (found.symm.trans ((past.readAll length rest).2.trans present))
      exact ⟨[],tag,rest,inner,rfl,path,ending⟩

end Outline

end AccessibleMarkup.Markup
