import AccessibleMarkup.Proofs.OutlineWrapping

/-! Texts in which an element has been put into a new list. What the lexer is in the middle of where the element ends
decides how the closing tag of the list is read: it is read as a tag unless the text breaks off in the closing tag
of the element. -/
namespace AccessibleMarkup.Markup

open Text

namespace LexPhase

def rawElement? : LexPhase → Option RawElement
  | .raw element => some element
  | .rawBracket element _ => some element
  | .rawName element _ _ => some element
  | _ => none

theorem rawElement?_behind {tag : Tag} {element : RawElement} (raw : (behind tag).rawElement? = some element) :
    tag.kind = .opening false ∧ RawElement.ofName? tag.name = some element := by
  unfold behind afterOpening at raw
  split at raw
  next slash kind =>
    cases slash with
    | true => contradiction
    | false =>
      rw [if_neg Bool.false_ne_true] at raw
      split at raw
      next other found => exact ⟨kind,found.trans raw⟩
      next => contradiction
  next => contradiction

theorem behind_bare {tag : Tag} {slash : Bool} (kind : tag.kind = .opening slash)
    (bare : Outline.hasContent tag slash (asciiLower tag.name) = false) (terminated : tag.terminated = true) :
    behind tag = .text := by
  rw [behind,kind]
  dsimp only
  cases slash with
  | true => rfl
  | false =>
    have void : isVoid (asciiLower tag.name) = true := by simpa [Outline.hasContent,terminated] using bare
    rw [afterOpening,if_neg Bool.false_ne_true]
    split
    next element found =>
      rw [RawElement.lower_of_ofName? found,element.lasting.content] at void
      contradiction
    next => rfl

theorem Turn.rawElement {offset : Nat} {c : Char} {phase next : LexPhase} {given : Option Tag} {element : RawElement}
    (turn : Turn offset c phase next given) (raw : next.rawElement? = some element) :
    (given = none ∧ phase.rawElement? = some element) ∨
      ∃ tag, given = some tag ∧ tag.kind = .opening false ∧ RawElement.ofName? tag.name = some element := by
  cases turn with
  | raw reads | rawBracket reads => cases reads <;> exact Or.inl ⟨rfl,raw⟩
  | rawSlash | rawName => exact Or.inl ⟨rfl,raw⟩
  | openingEnd => exact Or.inr ⟨_,rfl,rawElement?_behind raw⟩
  | _ => contradiction

theorem run_terminated (phase : LexPhase) (offset : Nat) (text : List Char) :
    ∀ tag ∈ (phase.run offset text).1, tag.terminated = true := by
  induction text generalizing phase offset with
  | nil => simp
  | cons c rest ih =>
    rw [run_cons]
    intro tag member
    rcases List.mem_append.mp member with here | later
    · rw [Option.mem_toList] at here
      exact (turn_of_given here).ends.2.2.2.2
    · exact ih _ _ tag later

/-- Where the lexer may as well be in plain text: a tag can start, and what follows is read alike. -/
structure Rests (phase : LexPhase) (offset : Nat) (after : List Char) : Prop where
  ready : phase.step offset '<' = (.bracket offset,none)
  same : lexFrom phase offset after = lexFrom .text offset after

theorem rests_text (offset : Nat) (after : List Char) : Rests .text offset after := ⟨rfl,rfl⟩

theorem Rests.lexFrom_listClosing {phase : LexPhase} {offset : Nat} {after : List Char}
    (rests : phase.Rests offset after) :
    lexFrom (phase.shift (· + 4)) (offset + 4) ("</ul>".toList ++ after) =
      listClosing (offset + 4) :: (lexFrom phase offset after).map (·.shift (· + 9)) := by
  have first := phase.shift_step (· + 4) offset '<' (Nat.add_right_comm _ _ _)
  rw [rests.ready] at first
  have back := lexFrom_shift (· + 9) .text offset after fun count => Nat.add_right_comm _ _ _
  rw [rests.same,← back,← List.singleton_append]
  have parts : "</ul>".toList ++ after = '<' :: '/' :: 'u' :: 'l' :: '>' :: after := rfl
  have letters : isNameChar 'l' = true ∧ isNameChar '>' = false := by decide
  rw [parts,lexFrom,first]
  simp only [Option.map_none,shift]
  rw [lexFrom,step]
  rfl

theorem lexFrom_cut {phase : LexPhase} {offset : Nat} {tag : Tag} (found : phase.finish offset = some tag)
    (kind : tag.kind = .closing) :
    lexFrom phase offset "</ul>".toList = [{ tag with stop := offset + 5, terminated := true }] := by
  have interior (start : Nat) (name : String) : lexFrom (.closingInterior start name) (offset + 1) ['/','u','l','>'] =
      [⟨.closing,name,start,offset + 5,true⟩] := rfl
  have parts : "</ul>".toList = ['<','/','u','l','>'] := rfl
  have other : isNameChar '<' = false := rfl
  have leave (start : Nat) (name : String) :
      leaveClosingName start offset name '<' = (.closingInterior start name,none) := rfl
  rw [parts]
  cases phase with
  | closingName start name =>
    obtain rfl := Option.some.inj found
    rw [lexFrom,step,other,if_neg Bool.false_ne_true,leave]
    exact interior start _
  | closingInterior start name =>
    obtain rfl := Option.some.inj found
    exact interior start name
  | rawName element start name =>
    simp only [finish] at found
    split_ifs at found with ended
    obtain rfl := Option.some.inj found
    rw [lexFrom,step,other,if_neg Bool.false_ne_true,if_pos ended,leave]
    exact interior start _
  | openingName start name =>
    obtain rfl := Option.some.inj found
    contradiction
  | openingInterior start name interior =>
    obtain rfl := Option.some.inj found
    contradiction
  | markup start interior =>
    obtain rfl := Option.some.inj found
    contradiction
  | _ => contradiction

end LexPhase

variable {read after : List Char} {tag : Tag}

theorem finish_of_cut {text : List Char} (member : tag ∈ lex text) (cut : tag.terminated = false) :
    (phaseAfter text).finish (byteLength text) = some tag := by
  rw [lex,lexFrom_eq_run,Nat.zero_add,List.mem_append,Option.mem_toList] at member
  refine member.resolve_left fun ended => ?_
  rw [LexPhase.run_terminated _ _ _ tag ended] at cut
  contradiction

theorem exists_raw_opening {element : RawElement} (raw : (phaseAfter read).rawElement? = some element) :
    ∃ front tag, (LexPhase.run .text 0 read).1 = front ++ [tag] ∧ tag.kind = .opening false ∧
      RawElement.ofName? tag.name = some element := by
  induction read using List.reverseRecOn with
  | nil => contradiction
  | append_singleton read c ih =>
    rw [phaseAfter_concat] at raw
    have tags : (LexPhase.run .text 0 (read ++ [c])).1 =
        (LexPhase.run .text 0 read).1 ++ ((phaseAfter read).step (byteLength read) c).2.toList := by
      rw [LexPhase.run_append,Nat.zero_add,LexPhase.run_cons,LexPhase.run_nil,List.append_nil]
      rfl
    rw [tags]
    rcases ((phaseAfter read).step_turn (byteLength read) c).rawElement raw with ⟨none,before⟩ | ⟨tag,found,opens⟩
    · rw [none,Option.toList_none,List.append_nil]
      exact ih before
    · rw [found]
      exact ⟨_,tag,rfl,opens⟩

theorem head_of_starts {phase : LexPhase} {offset : Nat} {c : Char} {rest : List Char}
    (member : tag ∈ lexFrom phase offset (c :: rest)) (start : tag.start = offset)
    (other : phase.start? ≠ some offset) : c = '<' := by
  have size := Char.utf8Size_pos c
  rw [lexFrom_cons,List.mem_append,Option.mem_toList] at member
  rcases phase.step_cases offset c with ⟨next,stepped,continued⟩ | ⟨next,found,stepped,_,none,pending,_⟩
  · rw [stepped] at member
    have later := (lexFrom_place _ _ _ tag (member.resolve_left (by simp))).1.resolve_right (by omega)
    rcases continued with none | kept | ⟨bracket,_⟩
    · rw [none] at later
      contradiction
    · rw [kept,start] at later
      exact absurd later other
    · exact bracket
  · rw [stepped] at member
    rcases member with here | later
    · obtain rfl := Option.some.inj here
      exact absurd (start ▸ pending) other
    · have later := (lexFrom_place _ _ _ tag later).1
      rw [none] at later
      have := later.resolve_left (by simp)
      omega

theorem bracket_of_starts (member : tag ∈ lexFrom (phaseAfter read) (byteLength read) after)
    (start : tag.start = byteLength read) :
    ∃ rest, after = '<' :: rest ∧ ((phaseAfter read).step (byteLength read) '<').1.start? = some (byteLength read) := by
  have other := phaseAfter_start?_ne read
  cases after with
  | nil =>
    rw [lexFrom,Option.mem_toList] at member
    exact absurd (start ▸ (LexPhase.finish_some _ _ tag member).1) other
  | cons c rest =>
    obtain rfl := head_of_starts member start other
    exact ⟨rest,rfl,pending_of_starts member start⟩

theorem rests_of_starts (member : tag ∈ lexFrom (phaseAfter read) (byteLength read) after)
    (start : tag.start = byteLength read) (cooked : (phaseAfter read).rawElement? = none) :
    (phaseAfter read).Rests (byteLength read) after := by
  obtain ⟨rest,rfl,_⟩ := bracket_of_starts member start
  have plain : (phaseAfter read).afterBlank = .text := by
    refine (afterBlank_or_raw member start).resolve_right ?_
    rintro ⟨element,raw⟩
    have turn := (phaseAfter read).step_turn (byteLength read) '<'
    rcases turn.rawElement (congrArg LexPhase.rawElement? raw) with
      ⟨_,before⟩ | ⟨tag,found,_⟩
    · rw [cooked] at before
      contradiction
    · rcases (phaseAfter read).step_cases (byteLength read) '<' with ⟨next,stepped,_⟩ | ⟨_,_,_,ended⟩
      · rw [stepped] at found
        contradiction
      · exact absurd ended.1 (by decide)
  have ready : (phaseAfter read).step (byteLength read) '<' = (.bracket (byteLength read),none) :=
    ready_of_afterBlank plain
  refine ⟨ready,?_⟩
  rw [lexFrom,lexFrom,ready]
  rfl

theorem append_inj_of_forall {α : Type} {holds : α → Prop} {first second front back : List α}
    (same : first ++ second = front ++ back) (inside : ∀ a ∈ first, holds a) (outside : ∀ a ∈ second, ¬ holds a)
    (within : ∀ a ∈ front, holds a) (beyond : ∀ a ∈ back, ¬ holds a) : first = front ∧ second = back := by
  rcases List.append_eq_append_iff.mp same with ⟨middle,rfl,rfl⟩ | ⟨middle,rfl,rfl⟩
  · cases middle with
    | nil => exact ⟨by simp,rfl⟩
    | cons a rest => exact absurd (within a (by simp)) (outside a (by simp))
  · cases middle with
    | nil => exact ⟨by simp,rfl⟩
    | cons a rest => exact absurd (inside a (by simp)) (beyond a (by simp))

theorem Outline.read_raw (outline : Outline) (length : Nat) {element : RawElement} (kind : tag.kind = .opening false)
    (terminated : tag.terminated = true) (raw : RawElement.ofName? tag.name = some element) :
    ∃ top outer, (outline.read length tag).path = top :: outer ∧ isSelfEnding top.name = false := by
  have label := RawElement.lower_of_ofName? raw
  have content : hasContent tag false (asciiLower tag.name) = true := by
    simp [hasContent,terminated,label,element.lasting.content]
  rw [read_of_opening kind,enter_eq]
  dsimp only
  rw [if_pos content]
  exact ⟨_,_,rfl,label ▸ element.lasting.stays⟩

/-- Where an element is left that may be left, the lexer is not in raw text, as its last tag would have started an
element that stays. -/
theorem rawElement?_of_left {front inside : List Tag} {opening : Tag} {outline : Outline} {length : Nat}
    (tags : (LexPhase.run .text 0 read).1 = front ++ opening :: inside)
    (loose : ∀ top outer, ((opening :: inside).foldl (Outline.read length) outline).path = top :: outer →
      isSelfEnding top.name = true) : (phaseAfter read).rawElement? = none := by
  by_contra raw
  obtain ⟨element,raw⟩ := Option.ne_none_iff_exists'.mp raw
  obtain ⟨ahead,last,split,kind,named⟩ := exists_raw_opening raw
  have terminated := LexPhase.run_terminated .text 0 read last (split ▸ List.mem_append_right _ (List.mem_singleton_self _))
  rw [tags] at split
  rcases List.eq_nil_or_concat (opening :: inside) with nil | ⟨between,tag,final⟩
  · contradiction
  · rw [List.concat_eq_append] at final
    rw [final,← List.append_assoc] at split
    obtain rfl := List.singleton_inj.mp (List.append_inj_right' split rfl)
    obtain ⟨top,outer,path,stays⟩ := (between.foldl (Outline.read length) outline).read_raw length kind terminated named
    rw [loose top outer (by rw [final,List.foldl_append]; exact path)] at stays
    contradiction

namespace Outline

variable {place : Wrapping} {length : Nat} {opening : Tag} {slash : Bool} {outline : Outline} {inside rest : List Tag}

/-- The tags of an element stop in it, and the others further on. -/
theorem Seam.stops (seam : Seam place length opening slash outline inside rest)
    (nonempty : ∀ tag ∈ opening :: (inside ++ rest), tag.start < tag.stop)
    (ordered : (opening :: (inside ++ rest)).Pairwise fun first second => first.stop ≤ second.start) :
    (∀ tag ∈ inside, tag.stop ≤ place.stop) ∧ ∀ tag ∈ rest, ¬ tag.stop ≤ place.stop := by
  obtain ⟨first,others⟩ := List.pairwise_cons.mp ordered
  obtain ⟨early,late,between⟩ := List.pairwise_append.mp others
  have filled (tag : Tag) (member : tag ∈ rest) : tag.start < tag.stop :=
    nonempty tag (List.mem_cons_of_mem _ (List.mem_append_right _ member))
  cases seam with
  | lone rest bare stop =>
    refine ⟨by simp,fun tag member => ?_⟩
    have := first tag member
    have := filled tag member
    omega
  | closed middle rest closing kind stop =>
    refine ⟨fun tag member => ?_,fun tag member => ?_⟩
    · rcases List.mem_append.mp member with before | last
      · have := (List.pairwise_append.mp early).2.2 tag before closing (List.mem_singleton_self _)
        have := nonempty closing (by simp)
        omega
      · obtain rfl := List.mem_singleton.mp last
        exact stop.le
    · have := between closing (by simp) tag member
      have := filled tag member
      omega
  | left inside rest next start loose =>
    refine ⟨fun tag member => start ▸ between tag member next List.mem_cons_self,fun tag member => ?_⟩
    have := filled tag member
    rcases List.mem_cons.mp member with rfl | further
    · omega
    · have := (List.pairwise_cons.mp late).1 tag further
      have := filled next List.mem_cons_self
      omega

theorem Seam.last_of_cut (seam : Seam place length opening slash outline inside rest) {ahead : List Tag} {tag : Tag}
    (parts : ahead ++ [tag] = inside ++ rest) (stop : tag.stop = place.stop)
    (bounds : ∀ other ∈ opening :: (inside ++ rest), other.start < other.stop ∧ other.stop ≤ place.stop)
    (ordered : (opening :: (inside ++ rest)).Pairwise fun first second => first.stop ≤ second.start) :
    inside = ahead ++ [tag] ∧ tag.kind = .closing := by
  obtain ⟨first,others⟩ := List.pairwise_cons.mp ordered
  have here : tag ∈ inside ++ rest := parts ▸ List.mem_append_right _ (List.mem_singleton_self _)
  have positive := (bounds tag (List.mem_cons_of_mem _ here)).1
  cases seam with
  | lone rest bare ends =>
    have := first tag here
    omega
  | closed middle rest closing kind ends =>
    have empty : rest = [] := by
      refine List.eq_nil_iff_forall_not_mem.mpr fun other listed => ?_
      have := (List.pairwise_append.mp others).2.2 closing (by simp) other listed
      have := bounds other (List.mem_cons_of_mem _ (List.mem_append_right _ listed))
      omega
    rw [empty,List.append_nil] at parts
    obtain ⟨same,one⟩ := List.append_inj' parts rfl
    obtain rfl := List.singleton_inj.mp one
    exact ⟨parts.symm,kind⟩
  | left inside rest next start loose =>
    have := bounds next (List.mem_cons_of_mem _ (List.mem_append_right _ List.mem_cons_self))
    omega

theorem path_read_closing (outline : Outline) (length : Nat) (one other : Tag) (kind : one.kind = .closing)
    (closes : other.kind = .closing) (same : one.name = other.name) :
    (outline.read length one).path = (outline.read length other).path := by
  rw [read_of_closing kind,read_of_closing closes,readClosing,readClosing,same]
  split
  · rfl
  · split_ifs <;> rfl

end Outline

def Node.wrapping (node : Node) (k : Nat) : Wrapping := ⟨node.start,node.stop,k⟩

theorem Inserted.eq_insertIdx {place : Wrapping} {length : Nat} {list : Node} {nodes others : List Node}
    (inserted : Inserted place length list nodes others)
    (known : ∀ node ∈ nodes, node.extent.isKnown = true) : others = (nodes.map place.node).insertIdx place.index list := by
  have complete (i : Nat) : nodes[i]?.map (place.carry length) = (nodes.map place.node)[i]? := by
    rw [List.getElem?_map]
    cases found : nodes[i]? with
    | none => rfl
    | some node =>
      refine congrArg some (Node.openTo_of_ended (fun pending => ?_) _)
      have open_ : node.extent = .unterminated := pending
      have := known node (List.mem_of_getElem? found)
      rw [open_] at this
      contradiction
  refine List.ext_getElem? fun j => ?_
  rw [List.getElem?_insertIdx]
  rcases Nat.lt_trichotomy j place.index with before | rfl | behind
  · have here := inserted.nodes j
    rw [Wrapping.number,if_pos before] at here
    rw [if_pos before,here,complete]
  · rw [if_neg (Nat.lt_irrefl _),if_pos rfl,if_pos (by simpa using inserted.bound),inserted.list]
  · obtain ⟨i,rfl⟩ : ∃ i, j = i + 1 := ⟨j - 1,by omega⟩
    have here := inserted.nodes i
    rw [Wrapping.number,if_neg (by omega)] at here
    rw [if_neg (by omega),if_neg (by omega),here,complete]
    rfl

namespace Node.PiecesIn

variable {text before name inner body after : List Char} {node : Node} {slash : Bool}

theorem outlineNodes_eq (pieces : node.PiecesIn text before name inner body after)
    (ending : tagEnding? inner = some slash) : outlineNodes text =
      ((node.openingTag name slash :: lexFrom (LexPhase.afterOpening (String.ofList name) slash) node.openStop
        (body ++ after)).foldl (Outline.read (byteLength text)) (frontOutline text before)).nodes := by
  rw [outlineNodes,pieces.lex_eq ending,Outline.ofTags,List.foldl_append]
  rfl

theorem run_read (pieces : node.PiecesIn text before name inner body after) (ending : tagEnding? inner = some slash) :
    LexPhase.run .text 0 ((before ++ '<' :: (name ++ inner)) ++ body) =
      ((LexPhase.run .text 0 before).1 ++ node.openingTag name slash ::
          ((LexPhase.afterOpening (String.ofList name) slash).run node.openStop body).1,
        ((LexPhase.afterOpening (String.ofList name) slash).run node.openStop body).2) := by
  have written := pieces.written
  have opened := written.ready.run_opening written.tag.letter written.tag.written inner slash ending
  rw [LexPhase.run_append,opened,Nat.zero_add,pieces.byteLength_read.1,List.append_assoc,written.start,← written.openStop]
  rfl

theorem rests_of_seam (pieces : node.PiecesIn text before name inner body after)
    (ending : tagEnding? inner = some slash)
    (whole : ∀ tag ∈ lex text, tag.stop = node.stop → tag.terminated = true) {place : Wrapping}
    (stop : place.stop = node.stop) {length : Nat} {outline : Outline} {inside rest : List Tag}
    (parts : lexFrom (LexPhase.afterOpening (String.ofList name) slash) node.openStop (body ++ after) = inside ++ rest)
    (seam : Outline.Seam place length (node.openingTag name slash) slash
      (outline.read length (node.openingTag name slash)) inside rest) :
    ((LexPhase.afterOpening (String.ofList name) slash).run node.openStop body).1 = inside ∧
      lexFrom ((LexPhase.afterOpening (String.ofList name) slash).run node.openStop body).2 node.stop after = rest ∧
      ((LexPhase.afterOpening (String.ofList name) slash).run node.openStop body).2.Rests node.stop after := by
  have read := pieces.run_read ending
  have lexed := pieces.lex_eq ending
  have reach := pieces.byteLength_read.2
  have ordered := lex_inOrder text
  have bounds (tag : Tag) (member : tag ∈ lex text) := ordered.between tag member
  have ordered := ordered.pairwise
  rw [lexed,parts] at ordered
  rw [lexFrom_append,← pieces.stop] at parts lexed
  generalize (LexPhase.afterOpening (String.ofList name) slash).run node.openStop body = reading at read parts lexed ⊢
  obtain ⟨stops,further⟩ := seam.stops (fun tag member => (bounds tag (by
    rw [lexed,parts]
    exact List.mem_append_right _ member)).1) (List.pairwise_append.mp ordered).2.1
  rw [stop] at stops further
  have phase : phaseAfter ((before ++ '<' :: (name ++ inner)) ++ body) = reading.2 := by rw [phaseAfter,read]
  have tags : (LexPhase.run .text 0 ((before ++ '<' :: (name ++ inner)) ++ body)).1 =
      (LexPhase.run .text 0 before).1 ++ node.openingTag name slash :: reading.1 := by rw [read]
  have first (tag : Tag) (member : tag ∈ reading.1) : tag.stop ≤ node.stop := by
    rw [← reach]
    refine (run_between _ tag ?_).2
    rw [tags]
    exact List.mem_append_right _ (List.mem_cons_of_mem _ member)
  have second (tag : Tag) (member : tag ∈ lexFrom reading.2 node.stop after) : ¬ tag.stop ≤ node.stop := by
    cases after with
    | nil =>
      have cut := whole tag (by rw [lexed]; exact List.mem_append_right _ (List.mem_cons_of_mem _ (List.mem_append_right _ member)))
      rw [lexFrom,Option.mem_toList] at member
      have := cut (LexPhase.finish_some _ _ tag member).2
      rw [LexPhase.finish_cut _ _ tag member] at this
      contradiction
    | cons c more =>
      have := (lexFrom_place _ _ _ tag member).2.2 (List.cons_ne_nil _ _)
      omega
  obtain ⟨same,behind⟩ := append_inj_of_forall parts first second stops further
  refine ⟨same,behind,?_⟩
  have ended {tag : Tag} (member : tag ∈ node.openingTag name slash :: reading.1) (last : tag.stop = node.stop) :
      reading.2 = .behind tag := by
    rw [← phase]
    exact phaseAfter_behind (by rw [tags]; exact List.mem_append_right _ member) (last.trans reach.symm)
  cases seam with
  | lone rest bare last =>
    rw [ended List.mem_cons_self (last.trans stop),LexPhase.behind_bare rfl bare rfl]
    exact LexPhase.rests_text _ _
  | closed middle rest closing kind last =>
    rw [ended (List.mem_cons_of_mem _ (by rw [same]; simp)) (last.trans stop),LexPhase.behind,kind]
    exact LexPhase.rests_text _ _
  | left inside rest next start loose =>
    rw [← phase,← reach] at behind ⊢
    refine rests_of_starts (behind ▸ List.mem_cons_self) (start.trans (stop.trans reach.symm)) ?_
    exact rawElement?_of_left (tags.trans (by rw [same])) fun top outer path => loose top outer path

theorem lex_rests (pieces : node.PiecesIn text before name inner body after) (ending : tagEnding? inner = some slash)
    (rests : ((LexPhase.afterOpening (String.ofList name) slash).run node.openStop body).2.Rests node.stop after) :
    lex (wrapText before name inner body after) =
      (LexPhase.run .text 0 before).1 ++ listOpening node.start :: (node.openingTag name slash).shift (· + 4) ::
        (((LexPhase.afterOpening (String.ofList name) slash).run node.openStop body).1.map (·.shift (· + 4)) ++
          listClosing (node.stop + 4) ::
            (lexFrom ((LexPhase.afterOpening (String.ofList name) slash).run node.openStop body).2 node.stop after).map
              (·.shift (· + 9))) := by
  have moved := LexPhase.run_shift (· + 4) (LexPhase.afterOpening (String.ofList name) slash) node.openStop body
    fun count => Nat.add_right_comm _ _ _
  rw [LexPhase.shift_of_start?_none _ _ (LexPhase.afterOpening_start? _ _)] at moved
  rw [pieces.lex_wrapped ending,lexFrom_append,moved]
  dsimp only
  have place : node.openStop + 4 + byteLength body = node.stop + 4 := by
    rw [pieces.stop]
    exact Nat.add_right_comm _ _ _
  rw [place,rests.lexFrom_listClosing]

/-- The tags of the element and those behind it, in the text and where the element stands in a new list that takes
its place. -/
theorem exists_seam (pieces : node.PiecesIn text before name inner body after)
    (known : ∀ node ∈ outlineNodes text, node.extent.isKnown = true) {k : Nat}
    (found : (outlineNodes text)[k]? = some node) (ending : tagEnding? inner = some slash)
    (spared : (frontOutline text before).endSibling node.name node.start = frontOutline text before) (length : Nat) :
    ∃ inside rest,
      lexFrom (LexPhase.afterOpening (String.ofList name) slash) node.openStop (body ++ after) = inside ++ rest ∧
      Outline.Seam (node.wrapping k) (byteLength text) (node.openingTag name slash) slash
        ((frontOutline text before).read (byteLength text) (node.openingTag name slash)) inside rest ∧
      Outline.InsertedAfter (node.wrapping k) (byteLength text) length
        ((Outline.ofTags length (LexPhase.run .text 0 before).1).started length (listOpening node.start) false)
        ((frontOutline text before).read (byteLength text) (node.openingTag name slash))
        (((Outline.ofTags length (LexPhase.run .text 0 before).1).read length (listOpening node.start)).read length
          ((node.openingTag name slash).shift (· + 4))) inside rest := by
  obtain ⟨number,_⟩ := pieces.opened found (known node (List.mem_of_getElem? found))
  have lexed := pieces.lex_eq ending
  have ordered := lex_inOrder text
  have bounds (tag : Tag) (member : tag ∈ lex text) := ordered.between tag member
  have pairwise := ordered.pairwise
  have label : asciiLower (node.openingTag name slash).name = node.name := pieces.written.named.symm
  have kind : (node.openingTag name slash).kind = .opening slash := rfl
  have path := Outline.ofTags_openPath (byteLength text) (LexPhase.run .text 0 before).1
  have reached : (frontOutline text before).Reached (byteLength text) (node.wrapping k).start :=
    (Outline.reached_start _).readFront (lexed ▸ ordered)
  have spans := (outlineNodes_forest text).spans k node found
  rw [lexed] at bounds pairwise
  rw [outlineNodes,lexed,Outline.ofTags_append] at known found
  have uncut : Outline.Uncut _ := fun other inside crossed => absurd (known other inside) (by rw [crossed]; decide)
  have next := Outline.lasts_openPath.read path (byteLength text) (node.openingTag name slash)
  have start : (frontOutline text before).Uncut :=
    path.uncut_of_readAll (byteLength text) [node.openingTag name slash] (next.uncut_of_readAll _ _ uncut)
  have none : Outline.OpenPath {} := ⟨.nil,by simp⟩
  have settled : (frontOutline text before).owed = [] := none.settled_of_uncut rfl _ _ start
  rw [← Outline.ofTags_openTo (byteLength text) length]
  exact reached.exists_seam path settled number (spans.1.trans_le (spans.2.1.trans spans.2.2.1)) kind rfl
    (label.symm ▸ spared) _ (fun tag member => (bounds tag (List.mem_append_right _ member)).1)
    (List.pairwise_append.mp pairwise).2.1 uncut found (known node (List.mem_of_getElem? found)) rfl length

/-- Where the new list takes the place of the element, and the closing tag of the element is not cut off, the
outline has the list besides. -/
theorem outlineNodes_wrapped (pieces : node.PiecesIn text before name inner body after)
    (known : ∀ node ∈ outlineNodes text, node.extent.isKnown = true) {k : Nat}
    (found : (outlineNodes text)[k]? = some node)
    (spared : (frontOutline text before).endSibling node.name node.start = frontOutline text before)
    (whole : ∀ tag ∈ lex text, tag.stop = node.stop → tag.terminated = true) :
    outlineNodes (wrapText before name inner body after) =
      ((outlineNodes text).map (node.wrapping k).node).insertIdx k ((node.wrapping k).list node) := by
  have member := List.mem_of_getElem? found
  obtain ⟨slash,ending,_⟩ := pieces.written.ending member (known node member)
  obtain ⟨_,opened⟩ := pieces.opened found (known node member)
  rw [spared] at opened
  obtain ⟨inside,rest,parts,seam,inserted⟩ := pieces.exists_seam known found ending spared
    (byteLength (wrapText before name inner body after))
  obtain ⟨first,second,rests⟩ := pieces.rests_of_seam ending whole rfl parts seam
  have again := pieces.lex_rests ending rests
  rw [first,second] at again
  have nodes := pieces.outlineNodes_eq ending
  rw [parts,List.foldl_cons] at nodes
  generalize wrapText before name inner body after = result at inserted again ⊢
  have front := (Outline.ofTags_lengths (byteLength text) (byteLength result) (LexPhase.run .text 0 before).1).2
  have list : ((Outline.ofTags (byteLength result) (LexPhase.run .text 0 before).1).started (byteLength result)
      (listOpening node.start) false).closeWith (listClosing (node.stop + 4)) = (node.wrapping k).list node := by
    have parent : node.parent = (frontOutline text before).path.head?.map (·.index) := congrArg (·.2.2.2.1) opened
    have depth : node.depth = (frontOutline text before).path.length := congrArg (·.2.2.2.2.1) opened
    have detached : node.detached = !(frontOutline text before).owed.isEmpty := congrArg (·.2.2.2.2.2) opened
    have lower : asciiLower (listOpening node.start).name = "ul" := asciiLower_ul
    rw [Wrapping.list,parent,depth,detached,Outline.started,lower,front.1,front.2]
    rfl
  have shown := inserted.nodes
  rw [← nodes] at shown
  rw [outlineNodes,again,Outline.ofTags_append,List.foldl_cons,List.foldl_append,List.foldl_cons]
  exact (shown.eq_insertIdx known).trans (by rw [← list]; rfl)

theorem lex_cut (pieces : node.PiecesIn text before name inner body after) (ending : tagEnding? inner = some slash)
    (last : after = []) {closing : Tag} (kind : closing.kind = .closing)
    (cut : ((LexPhase.afterOpening (String.ofList name) slash).run node.openStop body).2.finish node.stop = some closing) :
    lex (wrapText before name inner body after) =
      (LexPhase.run .text 0 before).1 ++ listOpening node.start :: (node.openingTag name slash).shift (· + 4) ::
        (((LexPhase.afterOpening (String.ofList name) slash).run node.openStop body).1.map (·.shift (· + 4)) ++
          [{ closing.shift (· + 4) with stop := node.stop + 9, terminated := true }]) := by
  have moved := LexPhase.run_shift (· + 4) (LexPhase.afterOpening (String.ofList name) slash) node.openStop body
    fun count => Nat.add_right_comm _ _ _
  rw [LexPhase.shift_of_start?_none _ _ (LexPhase.afterOpening_start? _ _)] at moved
  have finish := LexPhase.shift_finish (· + 4)
    ((LexPhase.afterOpening (String.ofList name) slash).run node.openStop body).2 node.stop
  rw [cut] at finish
  have place : node.openStop + 4 + byteLength body = node.stop + 4 := by
    rw [pieces.stop]
    exact Nat.add_right_comm _ _ _
  rw [pieces.lex_wrapped ending,lexFrom_append,moved,last,List.append_nil]
  dsimp only
  rw [place,LexPhase.lexFrom_cut finish kind]

theorem unterminated_of_cut (pieces : node.PiecesIn text before name inner body after)
    (known : ∀ node ∈ outlineNodes text, node.extent.isKnown = true) {k : Nat}
    (found : (outlineNodes text)[k]? = some node)
    (spared : (frontOutline text before).endSibling node.name node.start = frontOutline text before) {tag : Tag}
    (member : tag ∈ lex text) (stop : tag.stop = node.stop) (cut : tag.terminated = false) :
    ∃ list, (outlineNodes (wrapText before name inner body after))[k]? = some list ∧ list.extent = .unterminated := by
  obtain ⟨slash,ending,_⟩ := pieces.written.ending (List.mem_of_getElem? found) (known node (List.mem_of_getElem? found))
  obtain ⟨inside,rest,parts,seam,inserted⟩ := pieces.exists_seam known found ending spared
    (byteLength (wrapText before name inner body after))
  have lexed := pieces.lex_eq ending
  have ordered := lex_inOrder text
  have bounds : ∀ tag ∈ lex text, tag.start < tag.stop ∧ tag.stop ≤ byteLength text := ordered.between
  have pairwise := ordered.pairwise
  have finish := finish_of_cut member cut
  have length : byteLength text = node.stop := (LexPhase.finish_some _ _ tag finish).2.symm.trans stop
  have last : after = [] := by
    have whole := pieces.written.parts
    have reach := pieces.byteLength_read.2
    have size := congrArg byteLength (show text = ((before ++ '<' :: (name ++ inner)) ++ body) ++ after by rw [whole]; simp)
    rw [byteLength_append,reach] at size
    cases after with
    | nil => rfl
    | cons c more =>
      have positive := Char.utf8Size_pos c
      grind
  have read := pieces.run_read ending
  rw [show (before ++ '<' :: (name ++ inner)) ++ body = text by rw [pieces.written.parts,last]; simp] at read
  rw [phaseAfter,read,length] at finish
  dsimp only at finish
  rw [last,List.append_nil] at lexed parts
  rw [parts] at lexed
  rw [lexFrom_eq_run,← pieces.stop,finish,Option.toList_some] at parts
  rw [lexed] at pairwise bounds
  rw [length] at bounds
  obtain ⟨rfl,kind⟩ := seam.last_of_cut parts stop (fun other listed => bounds other (List.mem_append_right _ listed))
    (List.pairwise_append.mp pairwise).2.1
  have again := pieces.lex_cut ending last kind finish
  have pending := inserted.pending
  generalize wrapText before name inner body after = result at pending again ⊢
  have open_ : ⟨k,"ul"⟩ ∈ (Outline.ofTags (byteLength result) (lex result)).path := by
    rw [List.map_append,List.foldl_append] at pending
    rw [again,Outline.ofTags_append,List.foldl_cons,List.foldl_append]
    rw [List.foldl_cons,List.foldl_nil,← Outline.path_read_closing _ _ (tag.shift (· + 4))
      { tag.shift (· + 4) with stop := node.stop + 9, terminated := true } kind kind rfl]
    exact pending
  exact (Outline.ofTags_openPath _ _).pending _ open_

end Node.PiecesIn

end AccessibleMarkup.Markup
