import AccessibleMarkup.Proofs.TemplatedValues

/-! Where attributes start and end. Next to both ends of an attribute stands a character that is no white
space, or the tag ends there. No such character comes from blanking, so the ends of an attribute of the
filtered text lie between characters of the text as written. -/
namespace AccessibleMarkup.Markup

open Text

/-- An offset of a text that starts at `base`, next to a character that is no white space. -/
def Beside (base : Nat) (text : List Char) (offset : Nat) : Prop :=
  ∃ first c second, text = first ++ c :: second ∧ isMarkupSpace c = false ∧
    (offset = base + byteLength first ∨ offset = base + byteLength first + c.utf8Size)

variable {base offset : Nat} {read : List Char}

theorem Beside.append (beside : Beside base read offset) (more : List Char) :
    Beside base (read ++ more) offset := by
  obtain ⟨first,c,second,rfl,shown,place⟩ := beside
  exact ⟨first,c,second ++ more,by simp,shown,place⟩

theorem beside_start (base : Nat) (read : List Char) {c : Char} (shown : isMarkupSpace c = false) :
    Beside base (read ++ [c]) (base + byteLength read) := ⟨read,c,[],rfl,shown,Or.inl rfl⟩

theorem beside_stop (base : Nat) (read : List Char) {c : Char} (shown : isMarkupSpace c = false) :
    Beside base (read ++ [c]) (base + byteLength (read ++ [c])) :=
  ⟨read,c,[],rfl,shown,Or.inr (by simp [Nat.add_assoc])⟩

theorem ne_blank_of_not_markupSpace {c : Char} (shown : isMarkupSpace c = false) :
    c ≠ ' ' ∧ c ≠ '\n' ∧ c ≠ '\r' := by
  refine ⟨?_,?_,?_⟩ <;> rintro rfl <;> exact absurd shown (by decide)

namespace AttributePhase

variable {c : Char} {phase next : AttributePhase} {given : Option Attribute} {attr : Attribute} {name : WrittenName}

def Edged (base : Nat) (read : List Char) : AttributePhase → Prop
  | .naming start _ => Beside base read start ∧ Beside base read (base + byteLength read)
  | .afterName name => Beside base read name.range.start ∧ Beside base read name.range.stop
  | .afterEquals name => Beside base read name.range.start
  | .unquoted name _ _ => Beside base read name.range.start ∧ Beside base read (base + byteLength read)
  | .quoted name _ _ _ => Beside base read name.range.start
  | _ => True

theorem edged_readGap (base : Nat) (read : List Char) (c : Char) :
    (readGap (base + byteLength read) c).Edged base (read ++ [c]) := by
  unfold readGap
  split_ifs with bracket gap
  · trivial
  · trivial
  · rw [Bool.or_eq_true,not_or,Bool.not_eq_true] at gap
    have shown := isMarkupSpace_of_continues gap.1
    exact ⟨beside_start base read shown,beside_stop base read shown⟩

/-- Both ends of a name that has been read stand next to such a character. -/
theorem Edged.nameAt (edged : phase.Edged base read) (named : NameAt (base + byteLength read) phase name) :
    Beside base read name.range.start ∧ Beside base read name.range.stop := by
  cases named <;> exact edged

theorem Turn.edged (turn : Turn (base + byteLength read) c phase next given) (edged : phase.Edged base read) :
    next.Edged base (read ++ [c]) := by
  cases turn with
  | tagName | dangling | quoteEnd | done => trivial
  | tagNameEnd | gap | bare => exact edged_readGap base read c
  | letter _ _ continues =>
    exact ⟨edged.1.append [c],beside_stop base read (isMarkupSpace_of_continues continues)⟩
  | pause named =>
    obtain ⟨first,last⟩ := edged.nameAt named
    exact ⟨first.append [c],last.append [c]⟩
  | equals named => exact (edged.nameAt named).1.append [c]
  | valuePause | mark | quoteChar => exact Beside.append edged [c]
  | valueStart _ shown => exact ⟨Beside.append edged [c],beside_stop base read shown⟩
  | valueEnd _ _ _ ended => rcases ended with ⟨rfl,_⟩ | ⟨rfl,_⟩ <;> trivial
  | valueChar _ _ _ shown => exact ⟨edged.1.append [c],beside_stop base read shown⟩

/-- An attribute that a character ends has a character that is no white space next to both its ends. -/
theorem Turn.beside (turn : Turn (base + byteLength read) c phase next (some attr)) (started : phase.Started)
    (edged : phase.Edged base read) :
    Beside base (read ++ [c]) attr.range.start ∧ Beside base (read ++ [c]) attr.range.stop := by
  cases turn with
  | bare named =>
    obtain ⟨first,last⟩ := edged.nameAt named
    exact ⟨first.append [c],last.append [c]⟩
  | dangling _ bracket =>
    exact ⟨Beside.append edged [c],beside_start base read (by rw [bracket]; rfl)⟩
  | valueEnd => exact ⟨edged.1.append [c],edged.2.append [c]⟩
  | quoteEnd =>
    have shown : isMarkupSpace c = false := by rcases started with rfl | rfl <;> rfl
    have last := beside_stop base read shown
    rw [add_byteLength_concat,utf8Size_of_isMark started] at last
    exact ⟨Beside.append edged [c],last⟩

theorem Edged.finish {phase : AttributePhase} (edged : phase.Edged base read) (attr : Attribute)
    (found : phase.finish (base + byteLength read) = some attr) :
    Beside base read attr.range.start ∧
      (Beside base read attr.range.stop ∨ attr.range.stop = base + byteLength read) := by
  cases phase <;> simp only [AttributePhase.finish,reduceCtorEq] at found
  case naming start chars =>
    obtain rfl := Option.some.inj found
    exact ⟨edged.1,Or.inl edged.2⟩
  case afterName name =>
    obtain rfl := Option.some.inj found
    exact ⟨edged.1,Or.inl edged.2⟩
  case afterEquals name =>
    obtain rfl := Option.some.inj found
    exact ⟨edged,Or.inr rfl⟩
  case unquoted name start chars =>
    obtain rfl := Option.some.inj found
    exact ⟨edged.1,Or.inr rfl⟩
  case quoted name mark start chars =>
    obtain rfl := Option.some.inj found
    exact ⟨edged,Or.inr rfl⟩

end AttributePhase

/-- Every attribute that is read starts next to a character that is no white space, and ends next to one or
with the text. -/
theorem readAttributesFrom_edged (phase : AttributePhase) (read text : List Char)
    (edged : phase.Edged base read) (started : phase.Started) (attr : Attribute)
    (member : attr ∈ readAttributesFrom phase (base + byteLength read) text) :
    Beside base (read ++ text) attr.range.start ∧
      (Beside base (read ++ text) attr.range.stop ∨
        attr.range.stop = base + byteLength (read ++ text)) :=
  readAttributesFrom_forall (fun read phase => phase.Edged base read ∧ phase.Started)
    (fun text attr => Beside base text attr.range.start ∧
      (Beside base text attr.range.stop ∨ attr.range.stop = base + byteLength text))
    (fun turn kept => ⟨turn.edged kept.1,turn.started kept.2⟩)
    (fun turn kept more => (turn.beside kept.2 kept.1).imp (·.append more) fun last => Or.inl (last.append more))
    (fun kept found => kept.1.finish _ found) phase read text ⟨edged,started⟩ attr member

variable {filter : Filter} {source text : List Char} {element : Element}

theorem Element.attribute_edges (member : element ∈ elements text) {attr : Attribute}
    (own : attr ∈ element.attributes) :
    ∃ before tag after, text = before ++ (tag ++ after) ∧ Beside (byteLength before) tag attr.range.start ∧
      (Beside (byteLength before) tag attr.range.stop ∨ attr.range.stop = element.openStop) := by
  obtain ⟨node,found,rfl⟩ := List.mem_map.mp member
  obtain ⟨before,name,inner,after,written⟩ := node.exists_writtenIn _ found
  have read : (Element.ofNode text node).attributes = readAttributesFrom .tagName (Fix.nameStop node) inner :=
    written.writtenAttributes_eq
  have base : Fix.nameStop node = byteLength (before ++ '<' :: name) := by
    rw [written.nameStop_eq,← written.start]
    simp [Nat.add_assoc]
  rw [read,base] at own
  obtain ⟨first,last⟩ := readAttributesFrom_edged .tagName [] inner trivial trivial attr own
  rw [List.nil_append] at first last
  refine ⟨before ++ '<' :: name,inner,after,by rw [written.parts]; simp,first,last.imp id fun ended => ?_⟩
  rw [ended,← base,written.nameStop_eq]
  exact written.openStop.symm

theorem Filter.boundary_beside {before tag after : List Char} {offset : Nat}
    (parts : filter.apply source = before ++ (tag ++ after))
    (beside : Beside (byteLength before) tag offset) : Boundary source offset := by
  obtain ⟨first,c,second,rfl,shown,place⟩ := beside
  have found : filter.apply source = (before ++ first) ++ c :: (second ++ after) := by
    rw [parts]
    simp
  have cuts := filter.boundary_of_shown source _ _ c found (ne_blank_of_not_markupSpace shown).1
  rw [byteLength_append] at cuts
  rcases place with rfl | rfl
  · exact cuts.1
  · exact cuts.2

/-- The tag of an element of the filtered text starts and ends between characters of the text as
written. -/
theorem Element.boundary_tag (member : element ∈ elements (filter.apply source)) :
    Boundary source element.start ∧ Boundary source element.openStop := by
  obtain ⟨node,found,rfl⟩ := List.mem_map.mp member
  obtain ⟨before,name,inner,body,after,written⟩ := Filter.exists_partsIn found
  exact ⟨⟨before,_,written.parts,written.start⟩,(Filter.boundary_node found).1⟩

theorem Element.boundary_attribute (member : element ∈ elements (filter.apply source)) {attr : Attribute}
    (own : attr ∈ element.attributes) :
    Boundary source attr.range.start ∧ Boundary source attr.range.stop := by
  obtain ⟨before,tag,after,parts,first,last⟩ := Element.attribute_edges member own
  refine ⟨Filter.boundary_beside parts first,?_⟩
  rcases last with beside | ended
  · exact Filter.boundary_beside parts beside
  · rw [ended]
    exact (Element.boundary_tag member).2

end AccessibleMarkup.Markup
