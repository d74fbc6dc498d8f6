import AccessibleMarkup.Proofs.OutlineRenaming
import AccessibleMarkup.Proofs.TemplatedValues

/-! Documents in which an element has another name. Where the ends of all elements are known, another name of the
same length in both tags of an element changes that name and nothing else: structure, attributes and texts stay. -/
namespace AccessibleMarkup.Markup

open Text

/-- A name whose elements have content that is not raw text, and end only with a closing tag. -/
structure Ordinary (name : String) : Prop extends Lasting name where
  cooked : name ≠ "script" ∧ name ≠ "style"

theorem TagsInOrder.split_unique {length position : Nat} {front back first second : List Tag} {one other : Tag}
    (ordered : TagsInOrder length position (front ++ one :: back)) (same : front ++ one :: back = first ++ other :: second)
    (start : one.start = other.start) : front = first ∧ one = other ∧ back = second := by
  induction front generalizing position first with
  | nil =>
    cases first with
    | nil =>
      obtain ⟨rfl,rfl⟩ := List.cons.inj same
      exact ⟨rfl,rfl,rfl⟩
    | cons tag first =>
      obtain ⟨rfl,rfl⟩ := List.cons.inj same
      have later := ordered.2.le_start other (List.mem_append_right _ List.mem_cons_self)
      have nonempty := ordered.1.2.1
      omega
  | cons tag front ih =>
    cases first with
    | nil =>
      obtain ⟨rfl,rfl⟩ := List.cons.inj same
      have later := ordered.2.le_start one (List.mem_append_right _ List.mem_cons_self)
      have nonempty := ordered.1.2.1
      omega
    | cons _ first =>
      obtain ⟨rfl,rest⟩ := List.cons.inj same
      obtain ⟨rfl,equal⟩ := ih ordered.2 rest
      exact ⟨rfl,equal⟩

theorem TagName.of_lower {one other : List Char} (named : TagName one) (written : ∀ c ∈ other, isNameChar c = true)
    (same : asciiLower (String.ofList other) = asciiLower (String.ofList one)) :
    TagName other ∧ byteLength other = byteLength one := by
  have size := congrArg (fun name : String => byteLength name.toList) same
  simp only [byteLength_asciiLower,String.toList_ofList] at size
  have chars : other.map Char.toLower = one.map Char.toLower := by
    simpa [asciiLower] using congrArg String.toList same
  obtain ⟨c,rest,rfl,letter⟩ := named.letter
  rw [List.map_cons] at chars
  obtain ⟨d,others,rfl,lower,_⟩ := List.map_eq_cons_iff.mp chars
  refine ⟨⟨⟨d,others,rfl,?_⟩,written,?_⟩,size⟩
  · rw [← isAlpha_toLower,lower,isAlpha_toLower,letter]
  · have cooked := named.cooked
    rw [RawElement.ofName?] at cooked ⊢
    rw [same]
    exact cooked

/-- A closing tag that does not end raw text stands in the text with its name, where the lexer is ready for it. -/
theorem exists_closingParts {text : List Char} {tag : Tag} (member : tag ∈ lex text) (kind : tag.kind = .closing)
    (ordinary : Ordinary (asciiLower tag.name)) :
    ∃ before name after, text = before ++ '<' :: '/' :: (name ++ after) ∧ byteLength before = tag.start ∧
      Ready before ∧ tag.name = String.ofList name ∧ (∀ c ∈ name, isNameChar c = true) ∧
      (∀ c, after.head? = some c → isNameChar c = false) := by
  obtain ⟨front,after,stands⟩ := lex_standsIn text tag member
  obtain ⟨inner,name,rest,⟨before,read,place⟩,⟨closing,written,ended⟩,label,cut⟩ := stands.ends.closing kind
  have parts : text = before ++ '<' :: '/' :: (name ++ (rest ++ after)) := by
    rw [stands.parts,read,closing]
    simp
  refine ⟨before,name,rest ++ after,parts,place,?_,label,written,fun c head => ?_⟩
  · rw [parts] at member
    exact ready_of_afterBlank (afterBlank_of_starts member place.symm
      (foreign_of_lower ordinary.cooked.1 ordinary.cooked.2).2)
  · cases rest with
    | nil => simp [stands.cut (cut rfl)] at head
    | cons d rest => exact ended c head

theorem exists_tagPair {before one inner after : List Char} (ready : Ready before) (opens : TagName one)
    (ending : tagEnding? inner = some false) (ordinary : Ordinary (asciiLower (String.ofList one))) (closing : Tag)
    (later : closing ∈ lexFrom .text (byteLength before + 1 + byteLength one + byteLength inner) after)
    (kind : closing.kind = .closing) (same : asciiLower closing.name = asciiLower (String.ofList one)) :
    ∃ (pair : TagPair) (other : List Char), pair.before = before ∧ pair.inner = inner ∧
      before ++ '<' :: (one ++ (inner ++ after)) = pair.render one other ∧ TagName other ∧
      byteLength other = byteLength one ∧ closing.start = pair.closeStart (byteLength one) ∧
      closing.name = String.ofList other := by
  have whole : lex ((before ++ '<' :: (one ++ inner)) ++ after) = (LexPhase.run .text 0 before).1 ++
      [⟨.opening false,String.ofList one,byteLength before,
        byteLength before + 1 + byteLength one + byteLength inner,true⟩] ++
      lexFrom .text (byteLength before + 1 + byteLength one + byteLength inner) after := by
    have tags := ready.lex_tag one inner after opens.letter opens.written false ending
    rw [LexPhase.afterOpening,opens.cooked] at tags
    simpa using tags
  have member : closing ∈ lex ((before ++ '<' :: (one ++ inner)) ++ after) := by
    rw [whole]
    exact List.mem_append_right _ later
  obtain ⟨ahead,other,behind,split,begins,ready_,spelled,chars,ended⟩ :=
    exists_closingParts member kind (same.symm ▸ ordinary)
  have size : byteLength (before ++ '<' :: (one ++ inner)) =
      byteLength before + 1 + byteLength one + byteLength inner := by
    grind
  have starts := (lexFrom_place _ _ _ closing later).1.resolve_left (by simp [LexPhase.start?])
  obtain ⟨content,rfl,rfl⟩ := append_of_byteLength_le split (by rw [size,begins]; exact starts)
  have plain := congrArg Prod.snd (ready.run_tag opens inner false ending)
  obtain ⟨closes,width⟩ := opens.of_lower chars (by rw [← spelled,same])
  refine ⟨⟨before,inner,content,behind,ready,ending,(ready_append_iff plain content).mp ready_,ended⟩,other,rfl,rfl,
    by simp [TagPair.render],closes,width,?_,spelled⟩
  rw [← begins,byteLength_append,size]
  rfl

/-- The tags of an element in a text, with the names in them. -/
structure Node.PairIn (node : Node) (text : List Char) (pair : TagPair) (one other : List Char) : Prop where
  parts : text = pair.render one other
  opens : TagName one
  closes : TagName other
  named : asciiLower (String.ofList one) = node.name
  width : byteLength other = byteLength one
  start : byteLength pair.before = node.start
  openStop : node.openStop = pair.openStop (byteLength one)
  closeStart : node.closeStart = pair.closeStart (byteLength one)
  stop : pair.closeStart (byteLength one) + 2 + byteLength one ≤ node.stop

/-- The tags of a text around the opening tag of an element; the elements before it number its index. -/
theorem Node.WrittenIn.lexed {text before one inner after : List Char} {i : Nat} {node : Node}
    (written : node.WrittenIn text before one inner after) (found : (outlineNodes text)[i]? = some node)
    (known : node.extent.isKnown = true) :
    ∃ slash, tagEnding? inner = some slash ∧
      lex text = (LexPhase.run .text 0 before).1 ++
        ⟨.opening slash,String.ofList one,byteLength before,
            byteLength before + 1 + byteLength one + byteLength inner,true⟩ ::
          lexFrom (LexPhase.afterOpening (String.ofList one) slash)
            (byteLength before + 1 + byteLength one + byteLength inner) after ∧
      i = (Outline.ofTags (byteLength text) (LexPhase.run .text 0 before).1).nodes.length := by
  obtain ⟨slash,ending,_⟩ := written.ending (List.mem_of_getElem? found) known
  have lexed := written.ready.lex_tag one inner after written.tag.letter written.tag.written slash ending
  rw [← written.parts] at lexed
  obtain ⟨started,present,opened⟩ := Outline.getElem?_opened (byteLength text) (LexPhase.run .text 0 before).1
    (lexFrom (LexPhase.afterOpening (String.ofList one) slash)
      (byteLength before + 1 + byteLength one + byteLength inner) after)
    ⟨.opening slash,String.ofList one,byteLength before,
      byteLength before + 1 + byteLength one + byteLength inner,true⟩ slash rfl
  rw [← lexed,← outlineNodes] at present
  have place : started.start = byteLength before := congrArg (·.2.1) opened
  exact ⟨slash,ending,lexed,
    ((outlineNodes_forest text).index_of_start present found (place.trans written.start)).symm⟩

theorem exists_pairIn {text : List Char} (known : ∀ node ∈ outlineNodes text, node.extent.isKnown = true) {i : Nat}
    {node : Node} (found : (outlineNodes text)[i]? = some node) (ordinary : Ordinary node.name)
    (filled : node.openStop < node.closeStart) :
    node.extent = .closed ∧ ∃ pair one other, node.PairIn text pair one other ∧
      ∀ name, TagName name → byteLength name = byteLength one → Lasting (asciiLower (String.ofList name)) →
        outlineNodes (pair.render name name) =
          (outlineNodes text).modify i (·.rename (asciiLower (String.ofList name))) := by
  have member := List.mem_of_getElem? found
  obtain ⟨before,one,inner,after,written⟩ := Node.exists_writtenIn text node member
  obtain ⟨slash,ending,lexed,rfl⟩ := written.lexed found (known node member)
  have opens : TagName one := ⟨written.tag.letter,written.tag.written,
    (foreign_of_lower (written.named ▸ ordinary.cooked.1) (written.named ▸ ordinary.cooked.2)).1⟩
  have label : Ordinary (asciiLower (String.ofList one)) := written.named ▸ ordinary
  have plain : LexPhase.afterOpening (String.ofList one) slash = .text := by
    rw [LexPhase.afterOpening,opens.cooked]
    exact ite_self _
  rw [plain] at lexed
  let front := (LexPhase.run .text 0 before).1
  let opening : Tag := ⟨.opening slash,String.ofList one,byteLength before,
    byteLength before + 1 + byteLength one + byteLength inner,true⟩
  let rest := lexFrom .text (byteLength before + 1 + byteLength one + byteLength inner) after
  have lexed : lex text = front ++ opening :: rest := lexed
  have nodes : outlineNodes text = (Outline.ofTags (byteLength text) (front ++ opening :: rest)).nodes := by
    rw [outlineNodes,lexed]
  rw [nodes] at found
  obtain ⟨rfl,middle,closing,more,inner_,outer,parts,kind,same,path,others,extent,closeStart,stop⟩ :=
    Outline.exists_ended (byteLength text) front rest opening slash rfl rfl label.toLasting node found
      (known node member) filled
  have later : closing ∈ rest := by
    rw [parts]
    exact List.mem_append_right _ List.mem_cons_self
  obtain ⟨pair,other,rfl,rfl,shown,closes,width,starts,spelled⟩ :=
    exists_tagPair written.ready opens ending label closing later kind same
  rw [← written.parts] at shown
  obtain ⟨middle_,closing_,more_,_,starts_,stops_,renders⟩ := pair.lex_render (byteLength one) (byteLength one)
  have tags := renders one other opens closes rfl width
  rw [← shown,lexed,parts] at tags
  have ordered := lex_inOrder text
  rw [lexed,parts,← List.cons_append,← List.append_assoc] at ordered
  rw [← List.cons_append,← List.append_assoc,← List.cons_append,← List.append_assoc] at tags
  obtain ⟨first,rfl,rfl⟩ := ordered.split_unique tags (starts.trans starts_.symm)
  obtain rfl := (List.cons.inj (List.append_cancel_left first)).2
  rw [parts] at nodes
  have size : byteLength (pair.before) + 1 + byteLength one + byteLength pair.inner = pair.openStop (byteLength one) :=
    rfl
  refine ⟨extent,pair,one,other,⟨shown,opens,closes,written.named.symm,width,written.start,
    by rw [written.openStop,← written.start]; rfl,closeStart.trans starts,by rw [stop]; exact stops_⟩,
    fun name named sized lasting => ?_⟩
  have length : byteLength (pair.render name name) = byteLength text := by
    rw [shown,TagPair.byteLength_render,TagPair.byteLength_render,sized,width]
  have renamed := Outline.ofTags_rename (byteLength text) front middle more opening _ false (String.ofList name) rfl
    kind same label.toLasting lasting path others fun node inside crossed => ?_
  · have tags_ := renders name name named named sized sized
    have opening_ : pair.opening name = opening.withName (String.ofList name) := by
      rw [TagPair.opening,sized]
      rfl
    rw [outlineNodes,length,tags_,opening_,nodes]
    exact congrArg Outline.nodes renamed
  · rw [← nodes] at inside
    have := known node inside
    rw [crossed] at this
    contradiction

theorem Forest.nested_or_apart {length : Nat} {nodes : List Node} (forest : Forest length nodes) {i j : Nat}
    {node other : Node} (found : nodes[i]? = some node) (present : nodes[j]? = some other) (differ : i ≠ j) :
    (node.openStop ≤ other.start ∧ other.stop ≤ node.closeStart) ∨
      (other.openStop ≤ node.start ∧ node.stop ≤ other.closeStart) ∨
      other.stop ≤ node.start ∨ node.stop ≤ other.start := by
  rcases Nat.lt_or_gt_of_ne differ with less | more
  · rcases forest.apart i j node other found present less with inside | outside
    · exact Or.inl (inside.inside forest node other found present)
    · exact Or.inr (Or.inr (Or.inr outside))
  · rcases forest.apart j i other node present found more with inside | outside
    · exact Or.inr (Or.inl (inside.inside forest other node present found))
    · exact Or.inr (Or.inr (Or.inl outside))

theorem RawElement.lasting (element : RawElement) : Lasting element.name := by
  cases element <;> exact ⟨by decide,by decide⟩

theorem RawElement.lower_of_ofName? {element : RawElement} {name : String} (found : ofName? name = some element) :
    asciiLower name = element.name := by
  unfold ofName? at found
  dsimp only at found
  split_ifs at found with script style
  · obtain rfl := Option.some.inj found
    exact script
  · obtain rfl := Option.some.inj found
    exact style

theorem RawElement.lower_of_endedBy {element : RawElement} {name : String} (ended : element.endedBy name = true) :
    asciiLower name = element.name := by
  have same : asciiLower name = asciiLower element.name := beq_iff_eq.mp ended
  rw [same]
  cases element <;> decide

/-- An element that holds another one does not hold raw text: that ends with the first tag behind it. -/
theorem Node.WrittenIn.cooked {text ahead name inner behind : List Char} {outer node : Node}
    (written : outer.WrittenIn text ahead name inner behind) (known : outer.extent.isKnown = true)
    (present : outer ∈ outlineNodes text) (member : node ∈ outlineNodes text) (after : outer.openStop ≤ node.start)
    (before : node.start < outer.closeStart) : RawElement.ofName? (String.ofList name) = none := by
  by_contra some
  obtain ⟨element,raw⟩ := Option.ne_none_iff_exists'.mp some
  have label := RawElement.lower_of_ofName? raw
  have lasting : Lasting (asciiLower (String.ofList name)) := label ▸ element.lasting
  obtain ⟨i,found⟩ := List.mem_iff_getElem?.mp present
  obtain ⟨slash,_,lexed,rfl⟩ := written.lexed found known
  -- Behind the tag of a raw element the first tag is its closing tag, so no element starts in its content.
  let front := (LexPhase.run .text 0 ahead).1
  let opening : Tag := ⟨.opening slash,String.ofList name,byteLength ahead,
    byteLength ahead + 1 + byteLength name + byteLength inner,true⟩
  let later := lexFrom (LexPhase.afterOpening (String.ofList name) slash)
    (byteLength ahead + 1 + byteLength name + byteLength inner) behind
  have lexed : lex text = front ++ opening :: later := lexed
  rw [outlineNodes,lexed] at found
  obtain ⟨rfl,_⟩ := Outline.exists_ended _ front later opening slash rfl rfl lasting outer found known
    (after.trans_lt before)
  have ordered := (lex_inOrder text).pairwise
  have nonempty (tag : Tag) (lexed_ : tag ∈ front ++ opening :: later) : tag.start < tag.stop :=
    ((lex_inOrder text).between tag (lexed ▸ lexed_)).1
  rw [lexed,List.pairwise_append,List.pairwise_cons] at ordered
  have further : ∃ tag ∈ later, tag.isOpening = true ∧ tag.start = node.start := by
    obtain ⟨tag,lexed_,opens,same⟩ := exists_openingTag member
    have start : tag.start = node.start := congrArg (·.2.1) same
    have stop : opening.stop = outer.openStop := by rw [written.openStop,← written.start]
    have here := nonempty opening (List.mem_append_right _ List.mem_cons_self)
    rw [lexed] at lexed_
    have positive := nonempty tag lexed_
    rcases List.mem_append.mp lexed_ with early | late
    · have := ordered.2.2 tag early opening List.mem_cons_self
      omega
    · rcases List.mem_cons.mp late with rfl | late
      · omega
      · exact ⟨tag,late,opens,start⟩
  obtain ⟨tag,further,opens,start⟩ := further
  have raw_ : LexPhase.InRaw element (.raw element) := Or.inl rfl
  have behind_ : later = lexFrom (.raw element)
      (byteLength ahead + 1 + byteLength name + byteLength inner) behind := by
    simp [later,LexPhase.afterOpening,raw]
  rcases raw_.lexFrom (byteLength ahead + 1 + byteLength name + byteLength inner) behind with none | some
  · rw [behind_,none] at further
    exact List.not_mem_nil further
  · obtain ⟨closing,more,split,closes,ended⟩ := some
    rw [← behind_] at split
    rw [split] at found further ordered nonempty
    have ends := Outline.closeStart_of_first _ front more opening closing rfl rfl closes lasting
      ((RawElement.lower_of_endedBy ended).trans label.symm) outer found
    rcases List.mem_cons.mp further with rfl | rest
    · rw [Tag.isOpening,closes] at opens
      contradiction
    · have := (List.pairwise_cons.mp ordered.2.1.2).1 tag rest
      have := nonempty closing (List.mem_append_right _ (List.mem_cons_of_mem _ List.mem_cons_self))
      omega

theorem phaseAfter_openStop {text : List Char} {outer node : Node} (known : outer.extent.isKnown = true)
    (present : outer ∈ outlineNodes text) (member : node ∈ outlineNodes text) (after : outer.openStop ≤ node.start)
    (before : node.start < outer.closeStart) {read rest : List Char} (parts : text = read ++ rest)
    (place : byteLength read = outer.openStop) : phaseAfter read = .text := by
  obtain ⟨ahead,name,inner,behind,written⟩ := Node.exists_writtenIn text outer present
  obtain ⟨slash,ending,_⟩ := written.ending present known
  have named : TagName name :=
    ⟨written.tag.letter,written.tag.written,written.cooked known present member after before⟩
  have size : byteLength (ahead ++ '<' :: (name ++ inner)) = outer.openStop := by
    rw [written.openStop,← written.start]
    grind
  have split : (ahead ++ '<' :: (name ++ inner)) ++ behind = read ++ rest := by
    rw [← parts,written.parts]
    simp
  obtain ⟨rfl,_⟩ := append_inj_of_byteLength split (size.trans place.symm)
  exact congrArg Prod.snd (written.ready.run_tag named inner slash ending)

def Element.rename (name : String) (element : Element) : Element := { element with name }

namespace Node.PairIn

variable {text : List Char} {node : Node} {pair : TagPair} {one other name : List Char}

theorem slice_render (placed : node.PairIn text pair one other) (size : byteLength name = byteLength one)
    (start stop : Nat) (apart : stop ≤ node.start + 1 ∨ (node.openStop ≤ start ∧ stop ≤ node.closeStart) ∨
      node.stop ≤ start) : slice? (pair.render name name) start stop = slice? text start stop := by
  have opened : pair.openStop (byteLength one) = byteLength pair.before + 1 + byteLength one + byteLength pair.inner :=
    rfl
  have started := placed.start
  have openStop := placed.openStop
  have closeStart := placed.closeStart
  have ended := placed.stop
  have width := placed.width
  rw [placed.parts]
  refine pair.slice_render size (size.trans width.symm) start stop ?_
  rcases apart with before | ⟨behind,before⟩ | behind
  · exact Or.inl (by omega)
  · exact Or.inr (Or.inl ⟨by omega,by omega⟩)
  · exact Or.inr (Or.inr (by omega))

theorem ofNode_render (placed : node.PairIn text pair one other) (size : byteLength name = byteLength one) {i j : Nat}
    {outer : Node} (found : (outlineNodes text)[i]? = some node) (present : (outlineNodes text)[j]? = some outer)
    (differ : i ≠ j) : Element.ofNode (pair.render name name) outer = Element.ofNode text outer := by
  have forest := outlineNodes_forest text
  obtain ⟨_,ordered,ended,_⟩ := forest.spans j outer present
  have tag : slice? (pair.render name name) outer.start outer.openStop = slice? text outer.start outer.openStop := by
    refine placed.slice_render size _ _ ?_
    rcases forest.nested_or_apart found present differ with ⟨within,_⟩ | ⟨around,_⟩ | before | behind
    · exact Or.inr (Or.inl ⟨within,by omega⟩)
    · exact Or.inl (by omega)
    · exact Or.inl (by omega)
    · exact Or.inr (Or.inr behind)
  rw [Element.ofNode,Element.ofNode,tag]

theorem ofNode_rename (placed : node.PairIn text pair one other) (named : TagName name)
    (size : byteLength name = byteLength one) (label : String)
    (role : impliedRole? label = impliedRole? node.name) :
    Element.ofNode (pair.render name name) (node.rename label) = (Element.ofNode text node).rename label := by
  have before : slice? text node.start node.openStop = some ('<' :: (one ++ pair.inner)) := by
    rw [placed.parts,← placed.start,placed.openStop]
    exact pair.slice_opening one other
  have after : slice? (pair.render name name) (node.rename label).start (node.rename label).openStop =
      some ('<' :: (name ++ pair.inner)) := by
    have opening := pair.slice_opening name name
    rw [size,placed.start,← placed.openStop] at opening
    exact opening
  have read (chars : List Char) (written : ∀ c ∈ chars, isNameChar c = true) :
      readAttributes ('<' :: (chars ++ pair.inner)) node.start =
        readAttributesFrom .tagName (node.start + 1 + byteLength chars) pair.inner :=
    readAttributesFrom_name chars _ (node.start + 1) written
  have attributes : readAttributes ('<' :: (name ++ pair.inner)) (node.rename label).start =
      readAttributes ('<' :: (one ++ pair.inner)) node.start := by
    rw [read one placed.opens.written,← size]
    exact read name named.written
  have implied (attributes : List Attribute) : role? label attributes = role? node.name attributes := by
    rw [role?,role?,role]
  rw [Element.ofNode,Element.ofNode,before,after]
  dsimp only
  rw [attributes,Element.rename]
  exact congrArg (Element.mk (node.rename label) _) (implied _)

theorem textBetween_render (placed : node.PairIn text pair one other) (named : TagName name)
    (size : byteLength name = byteLength one) {outer : Node} (known : outer.extent.isKnown = true)
    (present : outer ∈ outlineNodes text) (member : node ∈ outlineNodes text) (after : outer.openStop ≤ node.start)
    (before : node.stop ≤ outer.closeStart) (old : List Char)
    (sliced : slice? text outer.openStop outer.closeStart = some old) :
    ∃ new, slice? (pair.render name name) outer.openStop outer.closeStart = some new ∧
      textBetween 0 (lex new) new = textBetween 0 (lex old) old := by
  have started := placed.start
  have stopped := placed.stop
  have width := placed.width
  have opened : byteLength pair.before < pair.closeStart (byteLength one) := by
    rw [TagPair.closeStart,TagPair.openStop]
    omega
  obtain ⟨front,back,parts,place,reach⟩ := slice?_some _ _ _ _ sliced
  have first := parts.symm.trans placed.parts
  rw [TagPair.render] at first
  obtain ⟨ahead,start,rest⟩ := append_of_byteLength_le first (by omega)
  have second : (pair.front one ++ pair.content ++ ['<','/'] ++ other) ++ pair.after = (front ++ old) ++ back := by
    rw [List.append_assoc _ other,← pair.render_closing,← placed.parts,parts,List.append_assoc]
  obtain ⟨behind,last,stop⟩ := append_of_byteLength_le second (by
    rw [byteLength_append,pair.byteLength_closing,byteLength_append]
    omega)
  have plain := phaseAfter_openStop known present member after (by omega) parts place
  have ready : Ready ahead := (ready_append_iff plain ahead).mp (start ▸ pair.ready)
  have ended : ∀ c, behind.head? = some c → isNameChar c = false := by
    intro c head
    refine pair.ended c ?_
    rw [stop,List.head?_append,head]
    rfl
  let inside : TagPair := ⟨ahead,pair.inner,pair.content,behind,ready,pair.ending,pair.closes,ended⟩
  have whole (first second : List Char) : pair.render first second = front ++ (inside.render first second ++ back) := by
    simp [TagPair.render,inside,start,stop]
  have same : old = inside.render one other := by
    have equal := (placed.parts.trans (whole one other)).symm.trans parts
    exact (List.append_cancel_right (List.append_cancel_left equal)).symm
  refine ⟨inside.render name name,?_,?_⟩
  · have length : byteLength (inside.render name name) = byteLength old := by
      rw [same,inside.byteLength_render,inside.byteLength_render,size,width]
    have found := slice?_append front (inside.render name name) back
    rw [length,place,← reach] at found
    rw [whole,found]
  · rw [same]
    exact inside.textBetween_render placed.opens placed.closes named named size (size.trans width.symm)

theorem innerText_render (placed : node.PairIn text pair one other) (named : TagName name)
    (size : byteLength name = byteLength one) {i j : Nat} {outer : Node} (found : (outlineNodes text)[i]? = some node)
    (present : (outlineNodes text)[j]? = some outer) (known : outer.extent.isKnown = true) :
    (Element.ofNode text outer).innerText (pair.render name name) =
      (Element.ofNode text outer).innerText text := by
  have forest := outlineNodes_forest text
  obtain ⟨_,ordered,ended,_⟩ := forest.spans j outer present
  have member := List.mem_of_getElem? present
  rw [Element.innerText,Element.innerText,Element.content?,Element.content?,Element.contentRange_eq member]
  have apart (away : outer.closeStart ≤ node.start + 1 ∨
      (node.openStop ≤ outer.openStop ∧ outer.closeStart ≤ node.closeStart) ∨ node.stop ≤ outer.openStop) :
      slice? (pair.render name name) outer.openStop outer.closeStart =
        slice? text outer.openStop outer.closeStart := placed.slice_render size _ _ away
  rcases eq_or_ne i j with rfl | differ
  · obtain rfl := Option.some.inj (found.symm.trans present)
    rw [apart (Or.inr (Or.inl ⟨le_rfl,le_rfl⟩))]
  · rcases forest.nested_or_apart found present differ with ⟨within,inside⟩ | ⟨around,inside⟩ | before | behind
    · rw [apart (Or.inr (Or.inl ⟨by omega,by omega⟩))]
    · obtain ⟨old,sliced⟩ := Element.exists_content (List.mem_map_of_mem member)
      rw [Element.content?,Element.contentRange_eq member] at sliced
      obtain ⟨new,rendered,same⟩ := placed.textBetween_render named size known member
        (List.mem_of_getElem? found) around inside old sliced
      rw [sliced,rendered]
      dsimp only
      rw [same]
    · rw [apart (Or.inl (by omega))]
    · rw [apart (Or.inr (Or.inr (by omega)))]

end Node.PairIn

/-- Where the ends of all elements are known, another name of the same length and the same implied role in the
tags of an element with content changes its name, and nothing else about the elements of the text. -/
theorem elements_rename {text : List Char} (known : ∀ element ∈ elements text, element.isKnown = true) {i : Nat}
    {element : Element} (found : (elements text)[i]? = some element) (ordinary : Ordinary element.name)
    (filled : element.openStop < element.closeStart) :
    element.extent = .closed ∧ ∃ pair one other, element.toNode.PairIn text pair one other ∧
      ∀ name, TagName name → byteLength name = byteLength one → Lasting (asciiLower (String.ofList name)) →
        impliedRole? (asciiLower (String.ofList name)) = impliedRole? element.name →
        elements (pair.render name name) =
            (elements text).modify i (·.rename (asciiLower (String.ofList name))) ∧
          ∀ outer ∈ elements text, outer.innerText (pair.render name name) = outer.innerText text := by
  have known_ : ∀ node ∈ outlineNodes text, node.extent.isKnown = true :=
    fun node member => known _ (List.mem_map_of_mem member)
  obtain ⟨node,present,rfl⟩ := Option.map_eq_some_iff.mp ((elements_getElem? text i).symm.trans found)
  obtain ⟨extent,pair,one,other,placed,renamed⟩ := exists_pairIn known_ present ordinary filled
  refine ⟨extent,pair,one,other,placed,fun name named size lasting role => ⟨?_,fun outer member => ?_⟩⟩
  · refine List.ext_getElem? fun j => ?_
    rw [elements_getElem?,renamed name named size lasting,List.getElem?_modify,List.getElem?_modify,
      elements_getElem?]
    cases other_ : (outlineNodes text)[j]? with
    | none => rfl
    | some outer =>
      by_cases same : i = j
      · subst same
        obtain rfl := Option.some.inj (present.symm.trans other_)
        simp only [if_pos,Option.map_some,Option.map_eq_map]
        rw [placed.ofNode_rename named size _ role]
      · simp only [if_neg same,Option.map_some,Option.map_eq_map]
        rw [placed.ofNode_render size present other_ same]
  · obtain ⟨outer,inside,rfl⟩ := List.mem_map.mp member
    obtain ⟨j,other_⟩ := List.mem_iff_getElem?.mp inside
    exact placed.innerText_render named size present other_ (known_ outer inside)

end AccessibleMarkup.Markup
