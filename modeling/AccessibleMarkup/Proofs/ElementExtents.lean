import AccessibleMarkup.Proofs.ElementEnds

/-! What stands in the text where an element ends. The way in which an element ends names a tag, and that tag
is there: a closing tag of its own, the tag that leaves it behind, or a closing tag of another name.

The invariant of the pass over the tags is `Outline.Accounted`: the end of every element is explained by a tag
that has been read. A tag gives an end only to open elements, so no explanation is lost; and the elements that a
closing tag ends besides its own stand in that one or are all that is open. -/
namespace AccessibleMarkup.Markup

open Text

/-- The closing tag stands between the content and the end of the element, and has its name in any case. -/
structure Node.ClosedBy (node : Node) (tag : Tag) : Prop where
  kind : tag.kind = .closing
  start : tag.start = node.closeStart
  stop : tag.stop = node.stop
  label : sameIgnoringCase tag.name node.name = true

/-- The tag ends an element whose closing tag is left out: it opens one of the same name, or closes one
around it. -/
inductive LeavesBehind (nodes : List Node) (i : Nat) (node : Node) (tag : Tag) : Prop
  | sibling (kind : tag.isOpening = true) (label : sameIgnoringCase tag.name node.name = true)
  | ancestor (p : Nat) (outer : Node) (around : Encloses nodes p i) (found : nodes[p]? = some outer)
      (extent : outer.extent = .closed) (own : outer.ClosedBy tag)

/-- What the extent of an element says about the tags of a text of the given length. -/
inductive Explained (length : Nat) (tags : List Tag) (nodes : List Node) (i : Nat) (node : Node) : Prop
  | closed (tag : Tag) (read : tag ∈ tags) (extent : node.extent = .closed) (own : node.ClosedBy tag)
  | empty (extent : node.extent = .selfClosed ∨ node.extent = .void) (closes : node.closeStart = node.stop)
      (stop : node.stop = node.openStop)
  | implied (tag : Tag) (read : tag ∈ tags) (extent : node.extent = .implied)
      (loose : isSelfEnding node.name = true) (start : tag.start = node.stop) (left : LeavesBehind nodes i node tag)
  | crossed (tag : Tag) (read : tag ∈ tags) (extent : node.extent = .crossed) (kind : tag.kind = .closing)
      (start : tag.start = node.stop) (other : sameIgnoringCase tag.name node.name = false)
  | unterminated (extent : node.extent = .unterminated) (stop : node.stop = length)

/-- An explanation holds on when more tags are read that give an end only to elements without one. -/
theorem Explained.mono {length : Nat} {tags more : List Tag} {nodes later : List Node} {i : Nat} {node : Node}
    (explained : Explained length tags nodes i node) (read : tags ⊆ more)
    (links : ∀ i outer, parentAt nodes i = some outer → parentAt later i = some outer)
    (kept : ∀ (p : Nat) (outer : Node), nodes[p]? = some outer → outer.extent ≠ .unterminated →
      later[p]? = some outer) : Explained length more later i node := by
  cases explained with
  | closed tag member extent own => exact .closed tag (read member) extent own
  | empty extent closes stop => exact .empty extent closes stop
  | implied tag member extent loose start left =>
    refine .implied tag (read member) extent loose start ?_
    cases left with
    | sibling kind label => exact .sibling kind label
    | ancestor p outer around found closed own =>
      exact .ancestor p outer (around.mono links) (kept p outer found (by simp [closed])) closed own
  | crossed tag member extent kind start other => exact .crossed tag (read member) extent kind start other
  | unterminated extent stop => exact .unterminated extent stop

namespace Explained

variable {length : Nat} {tags : List Tag} {nodes : List Node} {i : Nat} {node : Node}

theorem of_closed (explained : Explained length tags nodes i node) (extent : node.extent = .closed) :
    ∃ tag ∈ tags, node.ClosedBy tag := by
  cases explained with
  | closed tag read _ own => exact ⟨tag,read,own⟩
  | _ => simp_all

theorem of_empty (explained : Explained length tags nodes i node)
    (extent : node.extent = .selfClosed ∨ node.extent = .void) :
    node.closeStart = node.stop ∧ node.stop = node.openStop := by
  cases explained with
  | empty _ closes stop => exact ⟨closes,stop⟩
  | _ => simp_all

theorem of_implied (explained : Explained length tags nodes i node) (extent : node.extent = .implied) :
    isSelfEnding node.name = true ∧ ∃ tag ∈ tags, tag.start = node.stop ∧ LeavesBehind nodes i node tag := by
  cases explained with
  | implied tag read _ loose start left => exact ⟨loose,tag,read,start,left⟩
  | _ => simp_all

theorem of_crossed (explained : Explained length tags nodes i node) (extent : node.extent = .crossed) :
    ∃ tag ∈ tags, tag.kind = .closing ∧ tag.start = node.stop ∧ sameIgnoringCase tag.name node.name = false := by
  cases explained with
  | crossed tag read _ kind start other => exact ⟨tag,read,kind,start,other⟩
  | _ => simp_all

theorem of_unterminated (explained : Explained length tags nodes i node) (extent : node.extent = .unterminated) :
    node.stop = length := by
  cases explained with
  | unterminated _ stop => exact stop
  | _ => simp_all

end Explained

namespace Outline

/-- The names of elements are in lower case, and the open elements are known by their names. -/
structure Labelled (outline : Outline) : Prop where
  lower : ∀ node ∈ outline.nodes, asciiLower node.name = node.name
  named : ∀ entry ∈ outline.path, ∃ node, outline.nodes[entry.index]? = some node ∧ node.name = entry.name

theorem lasts_labelled : Lasts Labelled where
  ended nodes top outer owed closeStart stop extent := by
    rintro ⟨lower,named⟩
    refine ⟨fun node member => ?_,fun entry member => ?_⟩
    · obtain ⟨i,found⟩ := List.mem_iff_getElem?.mp member
      obtain ⟨before,present,rfl⟩ := getElem?_modify_some found
      split_ifs
      · exact lower before (List.mem_of_getElem? present)
      · exact lower before (List.mem_of_getElem? present)
    · obtain ⟨node,found,label⟩ := named entry (List.mem_cons_of_mem _ member)
      refine ⟨_,by rw [List.getElem?_modify,found]; rfl,?_⟩
      split_ifs
      · exact label
      · exact label
  entered outline length tag selfClosing := by
    rintro ⟨lower,named⟩
    refine ⟨fun node member => ?_,fun entry member => ?_⟩
    · rcases List.mem_append.mp member with old | new
      · exact lower node old
      · rw [List.mem_singleton.mp new]
        exact asciiLower_asciiLower tag.name
    · have kept (entry : OpenNode) (member : entry ∈ outline.path) :
          ∃ node, (outline.enter length tag selfClosing).nodes[entry.index]? = some node ∧
            node.name = entry.name := by
        obtain ⟨node,found,label⟩ := named entry member
        exact ⟨node,getElem?_append_of_some _ found,label⟩
      rw [enter] at member
      dsimp only at member
      split_ifs at member
      · rcases List.mem_cons.mp member with rfl | outer
        · exact ⟨_,List.getElem?_concat_length,rfl⟩
        · exact kept entry outer
      · exact kept entry member
  owing _ _ _ _ labelled := ⟨labelled.lower,labelled.named⟩

/-- What holds when the tags up to `position` in a text of the given length have been read. -/
structure Accounted (length position : Nat) (tags : List Tag) (outline : Outline) : Prop where
  reached : outline.Reached length position
  opened : outline.OpenPath
  labelled : outline.Labelled
  explained : ∀ (i : Nat) (node : Node), outline.nodes[i]? = some node → Explained length tags outline.nodes i node
  indebted : outline.owed ≠ [] → ∃ cut ∈ outline.nodes, cut.extent = .crossed
  detached : ∀ node ∈ outline.nodes, node.detached = true →
    ∃ cut ∈ outline.nodes, cut.extent = .crossed ∧ cut.stop ≤ node.start

variable {length position : Nat} {tags : List Tag} {outline : Outline} {tag : Tag} {entry : OpenNode} {node : Node}

theorem accounted_start (length : Nat) : Accounted length 0 [] {} where
  reached := reached_start length
  opened := ⟨List.Pairwise.nil,by simp⟩
  labelled := ⟨by simp,by simp⟩
  explained := by simp
  indebted owing := absurd rfl owing
  detached := by simp

theorem Labelled.sameIgnoringCase_eq (labelled : outline.Labelled) (member : entry ∈ outline.path)
    (found : outline.nodes[entry.index]? = some node) (tag : Tag) :
    sameIgnoringCase tag.name node.name = (asciiLower tag.name == entry.name) := by
  obtain ⟨other,present,label⟩ := labelled.named entry member
  obtain rfl := Option.some.inj (found.symm.trans present)
  rw [sameIgnoringCase,labelled.lower node (List.mem_of_getElem? found),label]

theorem Labelled.isSelfEnding_eq (labelled : outline.Labelled) (member : entry ∈ outline.path)
    (found : outline.nodes[entry.index]? = some node) : isSelfEnding node.name = isSelfEnding entry.name := by
  obtain ⟨other,present,label⟩ := labelled.named entry member
  obtain rfl := Option.some.inj (found.symm.trans present)
  rw [label]

theorem linked_drop {nodes : List Node} {inner outer : List OpenNode}
    (linked : Linked length nodes (inner ++ outer)) : Linked length nodes outer := by
  induction inner with
  | nil => exact linked
  | cons top inner ih => exact ih linked.2

theorem Reached.encloses (reached : outline.Reached length position) {inner outer : List OpenNode}
    {closed : OpenNode} (path : outline.path = inner ++ closed :: outer) (member : entry ∈ inner) :
    Encloses outline.nodes closed.index entry.index := by
  obtain ⟨front,back,rfl⟩ := List.append_of_mem member
  have linked := reached.linked
  rw [path,List.append_assoc,List.cons_append] at linked
  exact (linked_drop linked).encloses closed (by simp)

theorem parentAt_read (outline : Outline) (length : Nat) (tag : Tag) (i p : Nat)
    (link : parentAt outline.nodes i = some p) : parentAt (outline.read length tag).nodes i = some p := by
  have lasts : Lasts fun next => parentAt next.nodes i = some p := {
    ended := fun _ top _ _ closeStart stop extent same =>
      (@parentAt_modify _ top.index (fun node => { node with closeStart, stop, extent }) (fun _ => rfl) i).trans same
    entered := fun _ _ _ _ same => parentAt_append _ same
    owing := fun _ _ _ _ same => same }
  exact lasts.read link length tag

theorem OpenPath.getElem?_read (opened : outline.OpenPath) {i : Nat} (found : outline.nodes[i]? = some node)
    (ended : node.extent ≠ .unterminated) (length : Nat) (tag : Tag) :
    (outline.read length tag).nodes[i]? = some node :=
  (((opened.past found ended).readAll length [tag]).2).trans found

theorem Accounted.explained_read (accounted : Accounted length position tags outline) {i : Nat}
    (explained : Explained length tags outline.nodes i node) :
    Explained length (tags ++ [tag]) (outline.read length tag).nodes i node :=
  explained.mono (List.subset_append_left _ _) (parentAt_read outline length tag)
    fun _ _ found ended => accounted.opened.getElem?_read found ended length tag

theorem Labelled.explained_cut (labelled : outline.Labelled) (member : entry ∈ outline.path)
    (found : outline.nodes[entry.index]? = some node) (kind : tag.kind = .closing) (listed : tag ∈ tags)
    (other : entry.name ≠ asciiLower tag.name) (nodes : List Node) :
    Explained length tags nodes entry.index (node.endAt tag.start .crossed) :=
  .crossed tag listed rfl kind rfl
    ((labelled.sameIgnoringCase_eq member found tag).trans (beq_eq_false_iff_ne.mpr other.symm))

theorem Accounted.explained_sibling (accounted : Accounted length position tags outline) {selfClosing : Bool}
    (kind : tag.kind = .opening selfClosing) (member : entry ∈ outline.path)
    (gone : ∀ other ∈ (outline.read length tag).path, other.index ≠ entry.index)
    (found : (outline.read length tag).nodes[entry.index]? = some node) :
    Explained length (tags ++ [tag]) (outline.read length tag).nodes entry.index node := by
  obtain ⟨before,present,_⟩ := accounted.opened.pending entry member
  have label := accounted.labelled.sameIgnoringCase_eq member present tag
  have leaves := accounted.labelled.isSelfEnding_eq member present
  have entered (remaining : Outline) (inside : entry ∈ remaining.path) :
      entry ∈ (remaining.enter length tag selfClosing).path := by
    rw [enter]
    dsimp only
    split_ifs
    · exact List.mem_cons_of_mem _ inside
    · exact inside
  have sibling := outline.siblingStep (asciiLower tag.name) tag.start
  rw [read_of_opening kind] at found gone ⊢
  generalize outline.endSibling (asciiLower tag.name) tag.start = passed at sibling found gone ⊢
  cases sibling with
  | stays => exact absurd rfl (gone entry (entered _ member))
  | ends top rest path loose same =>
    rw [path] at member
    rcases List.mem_cons.mp member with rfl | outer
    · have single := getElem?_endAll_of_mem outline.nodes tag.start (fun _ => .implied)
        (List.pairwise_singleton _ entry) (List.mem_singleton_self entry)
      rw [present] at single
      obtain rfl := Option.some.inj ((getElem?_append_of_some _ single).symm.trans found)
      exact .implied tag (List.mem_append_right _ (List.mem_singleton_self tag)) rfl
        (leaves.trans (same ▸ loose)) rfl
        (.sibling (by rw [Tag.isOpening,kind]) (label.trans (beq_iff_eq.mpr same.symm)))
    · exact absurd rfl (gone entry (entered _ outer))

theorem Accounted.explained_closed (accounted : Accounted length position tags outline) (kind : tag.kind = .closing)
    {inner outer : List OpenNode} {closed : OpenNode} (path : outline.path = inner ++ closed :: outer)
    (label : closed.name = asciiLower tag.name) (others : Avoids (asciiLower tag.name) inner)
    (member : entry ∈ inner ∨ entry = closed)
    (found : (outline.read length tag).nodes[entry.index]? = some node) :
    Explained length (tags ++ [tag]) (outline.read length tag).nodes entry.index node := by
  have listed : tag ∈ tags ++ [tag] := List.mem_append_right _ (List.mem_singleton_self tag)
  have around : closed ∈ outline.path := by rw [path]; simp
  have apart := accounted.opened.apart
  rw [path,List.pairwise_append] at apart
  have read := readClosing_found outline tag inner outer closed path label others
  obtain ⟨last,present,_⟩ := accounted.opened.pending closed around
  have ended : (outline.read length tag).nodes[closed.index]? = some (last.closeWith tag) := by
    rw [read_of_closing kind,read,List.getElem?_modify_eq,getElem?_endAll _ _ _ _ _ fun other inside =>
      apart.2.2 other inside closed List.mem_cons_self,present]
    rfl
  have own : (last.closeWith tag).ClosedBy tag := ⟨kind,rfl,rfl,
    (accounted.labelled.sameIgnoringCase_eq around present tag).trans (beq_iff_eq.mpr label.symm)⟩
  rcases member with inside | rfl
  · have within : entry ∈ outline.path := by rw [path]; exact List.mem_append_left _ inside
    obtain ⟨before,open_,_⟩ := accounted.opened.pending entry within
    have stops : (outline.read length tag).nodes[entry.index]? =
        some (before.endAt tag.start (innerExtent entry)) := by
      have other := apart.2.2 entry inside closed List.mem_cons_self
      rw [read_of_closing kind,read,getElem?_modify_of_ne _ other.symm,
        getElem?_endAll_of_mem _ _ _ apart.1 inside,open_]
      rfl
    obtain rfl := Option.some.inj (stops.symm.trans found)
    rw [innerExtent]
    split_ifs with loose
    · refine .implied tag listed rfl ((accounted.labelled.isSelfEnding_eq within open_).trans loose) rfl
        (.ancestor closed.index _ ?_ ended rfl own)
      exact (accounted.reached.encloses path inside).mono (parentAt_read outline length tag)
    · exact accounted.labelled.explained_cut within open_ kind listed (others entry inside) _
  · obtain rfl := Option.some.inj (ended.symm.trans found)
    exact .closed tag listed rfl own

theorem Accounted.explained_stray (accounted : Accounted length position tags outline) (kind : tag.kind = .closing)
    (others : Avoids (asciiLower tag.name) outline.path)
    (owed : outline.owed.contains (asciiLower tag.name) = false) (member : entry ∈ outline.path)
    (found : (outline.read length tag).nodes[entry.index]? = some node) :
    Explained length (tags ++ [tag]) (outline.read length tag).nodes entry.index node := by
  obtain ⟨before,present,_⟩ := accounted.opened.pending entry member
  have stops : (outline.read length tag).nodes[entry.index]? = some (before.endAt tag.start .crossed) := by
    rw [read_of_closing kind,readClosing_stray outline tag others owed,
      getElem?_endAll_of_mem _ _ _ accounted.opened.apart member,present]
    rfl
  obtain rfl := Option.some.inj (stops.symm.trans found)
  exact accounted.labelled.explained_cut member present kind
    (List.mem_append_right _ (List.mem_singleton_self tag)) (others entry member) _

theorem Accounted.explained_ended (accounted : Accounted length position tags outline)
    (member : entry ∈ outline.path)
    (gone : ∀ other ∈ (outline.read length tag).path, other.index ≠ entry.index)
    (found : (outline.read length tag).nodes[entry.index]? = some node) :
    Explained length (tags ++ [tag]) (outline.read length tag).nodes entry.index node := by
  cases kind : tag.kind with
  | markup =>
    rw [read_of_markup kind] at gone
    exact absurd rfl (gone entry member)
  | opening selfClosing => exact accounted.explained_sibling kind member gone found
  | closing =>
    have closing := outline.closingStep tag
    rw [read_of_closing kind] at gone
    generalize outline.readClosing tag = next at closing gone
    cases closing with
    | closes inner closed outer path label others =>
      refine accounted.explained_closed kind path label others ?_ found
      rw [path] at member
      rcases List.mem_append.mp member with inside | rest
      · exact Or.inl inside
      · rcases List.mem_cons.mp rest with same | outside
        · exact Or.inr same
        · exact absurd rfl (gone entry outside)
    | pays => exact absurd rfl (gone entry member)
    | strays others owed => exact accounted.explained_stray kind others owed member found

theorem new_of_step {next : Outline} (step : Step length outline tag next) {i : Nat}
    (found : next.nodes[i]? = some node) (new : outline.nodes.length ≤ i) :
    node.start = tag.start ∧ (node.detached = true → outline.owed ≠ []) ∧
      ∀ tags nodes, Explained length tags nodes i node := by
  have bound := (List.getElem?_eq_some_iff.mp found).1
  cases step with
  | markup => exact absurd new (Nat.not_le_of_lt bound)
  | closing _ next closing =>
    have size := congrArg List.length (closing.map_nodes Node.opened (fun _ _ _ => rfl) fun _ _ => rfl)
    rw [List.length_map,List.length_map] at size
    exact absurd new (Nat.not_le_of_lt (size ▸ bound))
  | opening selfClosing _ before sibling =>
    have size := congrArg List.length (sibling.map_nodes Node.opened fun _ _ _ => rfl)
    rw [List.length_map,List.length_map] at size
    rcases getElem?_append_some found with old | ⟨_,rfl⟩
    · have earlier := (List.getElem?_eq_some_iff.mp old).1
      exact absurd new (Nat.not_le_of_lt (size ▸ earlier))
    · refine ⟨rfl,fun detached => ?_,fun tags nodes => ?_⟩
      · rw [sibling.owed] at detached
        simpa using detached
      · by_cases open_ : openingExtent tag selfClosing (asciiLower tag.name) = .unterminated
        · exact .unterminated open_ (if_pos open_)
        · refine .empty ?_ rfl (if_neg open_)
          dsimp only
          unfold openingExtent at open_ ⊢
          split_ifs at open_ ⊢ with cut slashed void
          · exact absurd rfl open_
          · exact Or.inl rfl
          · exact Or.inr rfl
          · exact absurd rfl open_

theorem old_of_read {i : Nat} (found : (outline.read length tag).nodes[i]? = some node)
    (old : i < outline.nodes.length) : ∃ before, outline.nodes[i]? = some before ∧ node.opened = before.opened := by
  have started : outline.nodes.map Node.opened <+: (outline.read length tag).nodes.map Node.opened :=
    (lasts_opened outline).read List.prefix_rfl length tag
  obtain ⟨more,same⟩ := started
  have here : (outline.nodes.map Node.opened ++ more)[i]? = ((outline.read length tag).nodes.map Node.opened)[i]? :=
    congrArg (·[i]?) same
  rw [List.getElem?_append_left (by rwa [List.length_map]),List.getElem?_map,List.getElem?_map,found] at here
  obtain ⟨before,present,equal⟩ := Option.map_eq_some_iff.mp here
  exact ⟨before,present,equal.symm⟩

theorem Accounted.cut_stays (accounted : Accounted length position tags outline) {cut : Node}
    (member : cut ∈ outline.nodes) (crossed : cut.extent = .crossed) :
    cut.stop ≤ position ∧ cut ∈ (outline.read length tag).nodes := by
  obtain ⟨i,found⟩ := List.mem_iff_getElem?.mp member
  have ended : cut.extent ≠ .unterminated := by simp [crossed]
  have kept := accounted.opened.getElem?_read found ended length tag
  exact ⟨accounted.reached.ended i cut found (accounted.opened.past found ended).2,List.mem_of_getElem? kept⟩

theorem OpenPath.exists_cut (opened : outline.OpenPath) (settled : outline.owed = []) {next : Outline}
    (closing : outline.ClosingStep tag next) (owing : next.owed ≠ []) :
    ∃ cut ∈ next.nodes, cut.extent = .crossed := by
  cases closing with
  | closes inner closed outer path =>
    rw [settled,List.append_nil] at owing
    obtain ⟨name,listed⟩ := List.exists_mem_of_ne_nil _ owing
    obtain ⟨entry,lasting,_⟩ := List.mem_map.mp listed
    obtain ⟨inside,stays⟩ := List.mem_filter.mp lasting
    obtain ⟨node,found,extent⟩ := opened.endAll_found path inside tag.start innerExtent
    have apart := opened.apart
    rw [path,List.pairwise_append] at apart
    have other := apart.2.2 entry inside closed List.mem_cons_self
    refine ⟨node,List.mem_of_getElem? ((getElem?_modify_of_ne _ other.symm).trans found),extent.trans ?_⟩
    exact if_neg (by simpa using stays)
  | pays others owed =>
    rw [settled] at owed
    contradiction
  | strays =>
    rw [settled,List.append_nil] at owing
    obtain ⟨name,listed⟩ := List.exists_mem_of_ne_nil _ owing
    obtain ⟨entry,inside,_⟩ := List.mem_map.mp listed
    obtain ⟨node,found,extent⟩ := opened.endAll_found (List.append_nil outline.path).symm inside
      tag.start fun _ => .crossed
    exact ⟨node,List.mem_of_getElem? found,extent⟩

theorem Accounted.indebted_read (accounted : Accounted length position tags outline)
    (owing : (outline.read length tag).owed ≠ []) :
    ∃ cut ∈ (outline.read length tag).nodes, cut.extent = .crossed := by
  by_cases settled : outline.owed = []
  · have step := outline.step tag length
    generalize outline.read length tag = next at step owing ⊢
    cases step with
    | markup => exact absurd settled owing
    | opening selfClosing _ before sibling => exact absurd (sibling.owed.trans settled) owing
    | closing _ next closing => exact accounted.opened.exists_cut settled closing owing
  · obtain ⟨cut,member,crossed⟩ := accounted.indebted settled
    exact ⟨cut,(accounted.cut_stays member crossed).2,crossed⟩

theorem Accounted.read (accounted : Accounted length position tags outline) (between : tag.Between position length) :
    Accounted length tag.stop (tags ++ [tag]) (outline.read length tag) where
  reached := accounted.reached.read between
  opened := lasts_openPath.read accounted.opened length tag
  labelled := lasts_labelled.read accounted.labelled length tag
  explained i node found := by
    -- The element is on the path before and after the tag, taken off the path by it, past, or new.
    rcases Nat.lt_or_ge i outline.nodes.length with old | new
    · by_cases listed : ∃ entry ∈ outline.path, entry.index = i
      · obtain ⟨entry,member,rfl⟩ := listed
        by_cases stays : ∃ other ∈ (outline.read length tag).path, other.index = entry.index
        · obtain ⟨other,inside,same⟩ := stays
          obtain ⟨open_,present,extent⟩ := (lasts_openPath.read accounted.opened length tag).pending other inside
          obtain ⟨again,here,_,stops⟩ := (accounted.reached.read between).linked.find other inside
          rw [same] at present here
          obtain rfl := Option.some.inj (found.symm.trans present)
          obtain rfl := Option.some.inj (found.symm.trans here)
          exact .unterminated extent stops
        · exact accounted.explained_ended member (by simpa using stays) found
      · have past : outline.Past i := ⟨old,by simpa using listed⟩
        have kept := ((past.readAll length [tag]).2).symm.trans found
        exact accounted.explained_read (accounted.explained i node kept)
    · exact (new_of_step (outline.step tag length) found new).2.2 _ _
  indebted := accounted.indebted_read
  detached node member detached := by
    obtain ⟨i,found⟩ := List.mem_iff_getElem?.mp member
    rcases Nat.lt_or_ge i outline.nodes.length with old | new
    · obtain ⟨before,present,same⟩ := old_of_read found old
      have start : node.start = before.start := congrArg (·.2.1) same
      have parted : node.detached = before.detached := congrArg (·.2.2.2.2.2) same
      obtain ⟨cut,listed,crossed,stops⟩ :=
        accounted.detached before (List.mem_of_getElem? present) (parted.symm.trans detached)
      exact ⟨cut,(accounted.cut_stays listed crossed).2,crossed,start ▸ stops⟩
    · obtain ⟨start,owing,_⟩ := new_of_step (outline.step tag length) found new
      obtain ⟨cut,listed,crossed⟩ := accounted.indebted (owing detached)
      obtain ⟨stops,stays⟩ := accounted.cut_stays listed crossed
      exact ⟨cut,stays,crossed,start ▸ Nat.le_trans stops between.1⟩

theorem Accounted.readAll (accounted : Accounted length position tags outline) {more : List Tag}
    (ordered : TagsInOrder length position more) :
    ∃ last, Accounted length last (tags ++ more) (more.foldl (Outline.read length) outline) := by
  induction more generalizing outline position tags with
  | nil => exact ⟨position,by rwa [List.append_nil]⟩
  | cons tag rest ih =>
    obtain ⟨last,further⟩ := ih (accounted.read ordered.1) ordered.2
    rw [List.append_assoc] at further
    exact ⟨last,further⟩

end Outline

theorem outlineNodes_accounted (text : List Char) :
    ∃ last, Outline.Accounted (byteLength text) last (lex text) (Outline.ofTags (byteLength text) (lex text)) :=
  (Outline.accounted_start (byteLength text)).readAll (lex_inOrder text)

/-- What the extents of elements promise about a text of the given length with the given tags. -/
structure TruthfulExtents (length : Nat) (tags : List Tag) (found : List Element) : Prop where
  closed : ∀ element ∈ found, element.extent = .closed → ∃ tag ∈ tags, element.ClosedBy tag
  unshared : ∀ (i j : Nat) (first second : Element), found[i]? = some first → found[j]? = some second →
    first.extent = .closed → second.extent = .closed → first.closeStart = second.closeStart → i = j
  empty : ∀ element ∈ found, element.extent = .selfClosed ∨ element.extent = .void →
    element.closeStart = element.stop ∧ element.stop = element.openStop
  implied : ∀ (i : Nat) (element : Element), found[i]? = some element → element.extent = .implied →
    isSelfEnding element.name = true ∧ ∃ tag ∈ tags, tag.start = element.stop ∧
      (tag.isOpening = true ∧ sameIgnoringCase tag.name element.name = true ∨
        ∃ p ∈ Document.ancestorsWithin found found.length i, ∃ outer, found[p]? = some outer ∧
          outer.extent = .closed ∧ outer.ClosedBy tag)
  crossed : ∀ element ∈ found, element.extent = .crossed → ∃ tag ∈ tags, tag.kind = .closing ∧
    tag.start = element.stop ∧ sameIgnoringCase tag.name element.name = false
  unterminated : ∀ element ∈ found, element.extent = .unterminated → element.stop = length
  detached : ∀ element ∈ found, element.detached = true →
    ∃ cut ∈ found, cut.extent = .crossed ∧ cut.stop ≤ element.start

/-- Elements that have the same closing tag are the same element: of two different ones the first ends before the
second starts, or holds all of it between its tags. -/
theorem Forest.eq_of_closeStart {length : Nat} {nodes : List Node} (forest : Forest length nodes) {i j : Nat}
    {first second : Node} (found : nodes[i]? = some first) (other : nodes[j]? = some second)
    (ends : first.closeStart < first.stop) (later : second.closeStart < second.stop)
    (same : first.closeStart = second.closeStart) : i = j := by
  have apart {i j : Nat} {first second : Node} (found : nodes[i]? = some first) (other : nodes[j]? = some second)
      (ends : first.closeStart < first.stop) (later : second.closeStart < second.stop)
      (same : first.closeStart = second.closeStart) : ¬ i < j := by
    intro lower
    have spans := forest.spans j second other
    unfold Node.Spans at spans
    rcases forest.apart i j first second found other lower with inside | outside
    · have within := (inside.inside forest first second found other).2
      omega
    · omega
  have left := apart found other ends later same
  have right := apart other found later ends same.symm
  omega

variable {text : List Char} {i j : Nat} {element first second : Element}

theorem toNode_of_elements (found : (elements text)[i]? = some element) :
    (outlineNodes text)[i]? = some element.toNode := by
  rw [elements_getElem?] at found
  obtain ⟨node,present,rfl⟩ := Option.map_eq_some_iff.mp found
  exact present

theorem elements_explained (found : (elements text)[i]? = some element) :
    Explained (byteLength text) (lex text) (outlineNodes text) i element.toNode := by
  obtain ⟨_,accounted⟩ := outlineNodes_accounted text
  exact accounted.explained i _ (toNode_of_elements found)

theorem elements_explained_of_mem (member : element ∈ elements text) :
    ∃ i, Explained (byteLength text) (lex text) (outlineNodes text) i element.toNode := by
  obtain ⟨i,found⟩ := List.mem_iff_getElem?.mp member
  exact ⟨i,elements_explained found⟩

theorem eq_of_closed (found : (elements text)[i]? = some first) (other : (elements text)[j]? = some second)
    (closed : first.extent = .closed) (also : second.extent = .closed)
    (same : first.closeStart = second.closeStart) : i = j := by
  have proper {k : Nat} {element : Element} (present : (elements text)[k]? = some element)
      (extent : element.extent = .closed) : element.closeStart < element.stop := by
    obtain ⟨tag,read,own⟩ := (elements_explained present).of_closed extent
    rw [← own.start,← own.stop]
    exact ((lex_inOrder text).between tag read).1
  exact (outlineNodes_forest text).eq_of_closeStart (toNode_of_elements found) (toNode_of_elements other)
    (proper found closed) (proper other also) same

/-- The extent of every element of every text tells the truth about the text. -/
theorem elements_truthfulExtents (text : List Char) :
    TruthfulExtents (byteLength text) (lex text) (elements text) where
  closed element member extent := by
    obtain ⟨i,explained⟩ := elements_explained_of_mem member
    exact explained.of_closed extent
  unshared i j first second found other closed also same := eq_of_closed found other closed also same
  empty element member extent := by
    obtain ⟨i,explained⟩ := elements_explained_of_mem member
    exact explained.of_empty extent
  implied i element found extent := by
    obtain ⟨loose,tag,read,start,left⟩ := (elements_explained found).of_implied extent
    refine ⟨loose,tag,read,start,?_⟩
    cases left with
    | sibling kind label => exact Or.inl ⟨kind,label⟩
    | ancestor p outer around present closed own =>
      have bound := Nat.le_of_lt (List.getElem?_eq_some_iff.mp found).1
      refine Or.inr ⟨p,(mem_ancestorsWithin text _ i p bound).mpr around,Element.ofNode text outer,?_,closed,own⟩
      rw [elements_getElem?]
      exact congrArg (Option.map (Element.ofNode text)) present
  crossed element member extent := by
    obtain ⟨i,explained⟩ := elements_explained_of_mem member
    exact explained.of_crossed extent
  unterminated element member extent := by
    obtain ⟨i,explained⟩ := elements_explained_of_mem member
    exact explained.of_unterminated extent
  detached element member detached := by
    obtain ⟨_,accounted⟩ := outlineNodes_accounted text
    obtain ⟨i,found⟩ := List.mem_iff_getElem?.mp member
    obtain ⟨cut,listed,crossed,stops⟩ :=
      accounted.detached _ (List.mem_of_getElem? (toNode_of_elements found)) detached
    exact ⟨Element.ofNode text cut,List.mem_map_of_mem listed,crossed,stops⟩

end AccessibleMarkup.Markup
