import AccessibleMarkup.Proofs.PlainElements
import Mathlib.Data.List.Infix

/-! Well-formed markup as a forest, and what the lexer finds in its text. Values stand in quotes and may
hold anything but their quotation mark; comments and the text of scripts and style sheets may hold
brackets. -/
namespace AccessibleMarkup.Markup

open Text

/-- An attribute with the white space before it and with its value in quotes. -/
structure QuotedAttribute where
  space : List Char
  name : List Char
  mark : Char
  value : List Char
  separated : space ≠ []
  blank : ∀ c ∈ space, isBlank c = true
  nonempty : name ≠ []
  written : ∀ c ∈ name, endsName c = false ∧ c ≠ '='
  quote : mark = '"' ∨ mark = '\''
  inside : ∀ c ∈ value, c ≠ mark

namespace QuotedAttribute

def assignment (attr : QuotedAttribute) : List Char := '=' :: attr.mark :: (attr.value ++ [attr.mark])

def render (attr : QuotedAttribute) : List Char := attr.space ++ (attr.name ++ attr.assignment)

/-- The attribute as it is read when its white space starts at an offset. -/
def place (attr : QuotedAttribute) (offset : Nat) : Attribute :=
  let start := offset + byteLength attr.space
  let stop := start + byteLength attr.name
  let valueStop := stop + 2 + byteLength attr.value
  ⟨String.ofList attr.name,String.ofList attr.value,AttributePhase.quoteOf attr.mark,
    ⟨start,valueStop + 1⟩,⟨start,stop⟩,some ⟨stop + 2,valueStop⟩⟩

def placeAll : List QuotedAttribute → Nat → List Attribute
  | [], _ => []
  | attr :: rest, offset => attr.place offset :: placeAll rest (offset + byteLength attr.render)

end QuotedAttribute

/-- An opening tag with all its values in quotes. -/
structure QuotedTag where
  name : List Char
  attributes : List QuotedAttribute
  /-- White space after the last attribute. -/
  space : List Char
  slash : Bool
  letter : ∃ c rest, name = c :: rest ∧ c.isAlpha = true
  written : ∀ c ∈ name, isNameChar c = true
  blank : ∀ c ∈ space, isBlank c = true

namespace QuotedTag

def label (tag : QuotedTag) : String := String.ofList tag.name

def elementName (tag : QuotedTag) : String := asciiLower tag.label

def body (tag : QuotedTag) : List Char :=
  tag.attributes.flatMap (·.render) ++ (tag.space ++ (if tag.slash then ['/'] else []))

def render (tag : QuotedTag) : List Char := '<' :: (tag.name ++ (tag.body ++ ['>']))

def closing (tag : QuotedTag) : List Char := '<' :: '/' :: (tag.name ++ ['>'])

def attributesAt (tag : QuotedTag) (start : Nat) : List Attribute :=
  QuotedAttribute.placeAll tag.attributes (start + 1 + byteLength tag.name)

/-- All white space in the tag is of the kind that separates attributes. -/
def IsSpaced (tag : QuotedTag) : Prop :=
  (∀ attr ∈ tag.attributes, ∀ c ∈ attr.space, isMarkupSpace c = true) ∧
    ∀ c ∈ tag.space, isMarkupSpace c = true

end QuotedTag

/-- An ordered forest of elements, texts and comments: its first tree and the trees after it. -/
inductive MarkupForest where
  | nil
  | text (chars : List Char) (plain : '<' ∉ chars) (rest : MarkupForest)
  | comment (chars : List Char) (inside : ¬ ['-', '-', '>'] <:+: '-' :: '-' :: chars)
      (rest : MarkupForest)
  /-- A void element, or one whose tag ends with a slash. -/
  | lone (tag : QuotedTag) (kind : tag.slash = true ∨ isVoid tag.elementName = true)
      (rest : MarkupForest)
  /-- An element whose content is text up to its closing tag. -/
  | raw (element : RawElement) (tag : QuotedTag) (chars : List Char) (open_ : tag.slash = false)
      (kind : tag.elementName = element.name)
      (inside : ¬ '<' :: '/' :: element.name.toList <:+: chars.map Char.toLower) (rest : MarkupForest)
  | element (tag : QuotedTag) (children : MarkupForest) (open_ : tag.slash = false)
      (content : isVoid tag.elementName = false) (cooked : RawElement.ofName? tag.label = none)
      (rest : MarkupForest)

namespace MarkupForest

def render : MarkupForest → List Char
  | nil => []
  | text chars _ rest => chars ++ rest.render
  | comment chars _ rest => '<' :: '!' :: '-' :: '-' :: (chars ++ '-' :: '-' :: '>' :: rest.render)
  | lone tag _ rest => tag.render ++ rest.render
  | raw _ tag chars _ _ _ rest => tag.render ++ (chars ++ (tag.closing ++ rest.render))
  | element tag children _ _ _ rest =>
    tag.render ++ (children.render ++ (tag.closing ++ rest.render))

/-- The names of the elements that stand in no other element of the forest. -/
def roots : MarkupForest → List String
  | nil => []
  | text _ _ rest => rest.roots
  | comment _ _ rest => rest.roots
  | lone tag _ rest => tag.elementName :: rest.roots
  | raw _ tag _ _ _ _ rest => tag.elementName :: rest.roots
  | element tag _ _ _ _ rest => tag.elementName :: rest.roots

/-- Whether no element that a tag of its own name ends stands directly around one of that name. -/
def keepsApart : MarkupForest → Bool
  | nil => true
  | text _ _ rest => rest.keepsApart
  | comment _ _ rest => rest.keepsApart
  | lone _ _ rest => rest.keepsApart
  | raw _ _ _ _ _ _ rest => rest.keepsApart
  | element tag children _ _ _ rest =>
    !(isSelfEnding tag.elementName && children.roots.contains tag.elementName) && children.keepsApart &&
      rest.keepsApart

def size : MarkupForest → Nat
  | nil => 0
  | text _ _ rest => rest.size
  | comment _ _ rest => rest.size
  | lone _ _ rest => rest.size + 1
  | raw _ _ _ _ _ _ rest => rest.size + 1
  | element _ children _ _ _ rest => children.size + rest.size + 1

end MarkupForest

/-- Where a forest stands: the offset of its text, the number of elements before it, the element around
it and the number of elements around it. -/
structure Position where
  offset : Nat
  index : Nat
  parent : Option Nat
  depth : Nat

namespace Position

def after (position : Position) (chars : List Char) (elements : Nat) : Position :=
  { position with offset := position.offset + byteLength chars, index := position.index + elements }

def within (position : Position) (tag : QuotedTag) : Position :=
  ⟨position.offset + byteLength tag.render,position.index + 1,some position.index,position.depth + 1⟩

def lone (position : Position) (tag : QuotedTag) : Node :=
  let stop := position.offset + byteLength tag.render
  { name := tag.elementName, start := position.offset, openStop := stop, closeStart := stop, stop
    extent := if tag.slash then .selfClosed else .void
    parent := position.parent, depth := position.depth, detached := false }

/-- The element that starts here and holds some content. -/
def closed (position : Position) (tag : QuotedTag) (content : List Char) : Node :=
  let openStop := position.offset + byteLength tag.render
  let closeStart := openStop + byteLength content
  { name := tag.elementName, start := position.offset, openStop, closeStart
    stop := closeStart + byteLength tag.closing
    extent := .closed
    parent := position.parent, depth := position.depth, detached := false }

end Position

/-- The elements of a forest in document order, each with its tag. -/
def MarkupForest.entries : MarkupForest → Position → List (Node × QuotedTag)
  | nil, _ => []
  | text chars _ rest, position => rest.entries (position.after chars 0)
  | comment chars _ rest, position =>
    rest.entries (position.after ('<' :: '!' :: '-' :: '-' :: (chars ++ ['-', '-', '>'])) 0)
  | lone tag _ rest, position =>
    (position.lone tag,tag) :: rest.entries (position.after tag.render 1)
  | raw _ tag chars _ _ _ rest, position =>
    (position.closed tag chars,tag) ::
      rest.entries (position.after (tag.render ++ (chars ++ tag.closing)) 1)
  | element tag children _ _ _ rest, position =>
    (position.closed tag children.render,tag) ::
      (children.entries (position.within tag) ++
        rest.entries (position.after (tag.render ++ (children.render ++ tag.closing)) (children.size + 1)))

namespace QuotedTag

def openingAt (tag : QuotedTag) (offset : Nat) : Tag :=
  ⟨.opening tag.slash,tag.label,offset,offset + byteLength tag.render,true⟩

def closingAt (tag : QuotedTag) (offset : Nat) : Tag :=
  ⟨.closing,tag.label,offset,offset + byteLength tag.closing,true⟩

end QuotedTag

def MarkupForest.tags : MarkupForest → Nat → List Tag
  | nil, _ => []
  | text chars _ rest, offset => rest.tags (offset + byteLength chars)
  | comment chars _ rest, offset =>
    let stop := offset + byteLength ('<' :: '!' :: '-' :: '-' :: (chars ++ ['-', '-', '>']))
    ⟨.markup,"",offset,stop,true⟩ :: rest.tags stop
  | lone tag _ rest, offset => tag.openingAt offset :: rest.tags (offset + byteLength tag.render)
  | raw _ tag chars _ _ _ rest, offset =>
    let close := offset + byteLength tag.render + byteLength chars
    tag.openingAt offset :: tag.closingAt close :: rest.tags (close + byteLength tag.closing)
  | element tag children _ _ _ rest, offset =>
    let content := offset + byteLength tag.render
    let close := content + byteLength children.render
    tag.openingAt offset ::
      (children.tags content ++ tag.closingAt close :: rest.tags (close + byteLength tag.closing))

theorem isBlank_other {c : Char} (blank : isBlank c = true) :
    c ≠ '>' ∧ c ≠ '=' ∧ c ≠ '/' ∧ isNameChar c = false := by
  refine ⟨?_,?_,?_,?_⟩
  · rintro rfl; exact absurd blank (by decide)
  · rintro rfl; exact absurd blank (by decide)
  · rintro rfl; exact absurd blank (by decide)
  · rw [Bool.eq_false_iff]
    intro named
    have between := toNat_of_isNameChar named
    simp only [isBlank,Bool.or_eq_true,Bool.and_eq_true,decide_eq_true_eq,beq_iff_eq] at blank
    omega

namespace QuotedAttribute

theorem advance?_render (attr : QuotedAttribute) :
    TagInterior.advance? (.plain false) attr.render = some (.plain false) := by
  have blank : ∀ c ∈ attr.space, c ≠ '>' ∧ c ≠ '=' := fun c member =>
    ⟨(isBlank_other (attr.blank c member)).1,(isBlank_other (attr.blank c member)).2.1⟩
  rw [render,← List.append_assoc,TagInterior.advance?_append,
    TagInterior.advance?_name _ _ _ blank attr.nonempty attr.written,Option.bind_some,assignment,
    TagInterior.advance?_cons _ _ _ rfl]
  exact TagInterior.advance?_value _ _ attr.quote attr.inside

end QuotedAttribute

namespace QuotedTag

theorem advance?_body (tag : QuotedTag) :
    TagInterior.advance? (.plain false) tag.body = some (.plain tag.slash) := by
  have attributes : TagInterior.advance? (.plain false) (tag.attributes.flatMap (·.render)) =
      some (.plain false) := by
    induction tag.attributes with
    | nil => rfl
    | cons attr rest ih =>
      rw [List.flatMap_cons,TagInterior.advance?_append,attr.advance?_render,Option.bind_some,ih]
  have blank : ∀ c ∈ tag.space, c ≠ '>' ∧ c ≠ '=' ∧ c ≠ '/' := fun c member =>
    ⟨(isBlank_other (tag.blank c member)).1,(isBlank_other (tag.blank c member)).2.1,
      (isBlank_other (tag.blank c member)).2.2.1⟩
  rw [body,TagInterior.advance?_append,attributes,Option.bind_some]
  exact TagInterior.advance?_end false tag.slash tag.space blank fun _ _ => rfl

theorem head_body (tag : QuotedTag) (rest : List Char) :
    ∀ c, (tag.body ++ '>' :: rest).head? = some c → isNameChar c = false := by
  have spaced (space : List Char) (blank : ∀ c ∈ space, isBlank c = true) (some_ : space ≠ []) (more : List Char)
      (c : Char) (head : (space ++ more).head? = some c) : isNameChar c = false := by
    obtain ⟨d,others,rfl⟩ := List.exists_cons_of_ne_nil some_
    rw [← Option.some.inj head]
    exact (isBlank_other (blank d List.mem_cons_self)).2.2.2
  intro c head
  unfold body at head
  cases attributes : tag.attributes with
  | cons attr others =>
    rw [attributes,List.flatMap_cons,QuotedAttribute.render,List.append_assoc,List.append_assoc,
      List.append_assoc] at head
    exact spaced attr.space attr.blank attr.separated _ c head
  | nil =>
    rw [attributes,List.flatMap_nil,List.nil_append,List.append_assoc] at head
    by_cases nothing : tag.space = []
    · rw [nothing,List.nil_append] at head
      cases slash : tag.slash <;> rw [slash] at head <;> obtain rfl := Option.some.inj head <;> rfl
    · exact spaced tag.space tag.blank nothing _ c head

end QuotedTag

theorem QuotedTag.lexFrom_render (tag : QuotedTag) (offset : Nat) (rest : List Char) :
    lexFrom .text offset (tag.render ++ rest) =
      tag.openingAt offset ::
        lexFrom (LexPhase.afterOpening tag.label tag.slash) (offset + byteLength tag.render) rest := by
  have lexed := lexFrom_bracket_tag offset tag.name tag.body rest (.plain tag.slash) tag.letter tag.written
    (tag.head_body rest) tag.advance?_body rfl
  have bracket : LexPhase.step .text offset '<' = (.bracket offset,none) := rfl
  rw [QuotedTag.render,List.cons_append,lexFrom,bracket]
  dsimp only
  rw [List.append_assoc,List.append_assoc]
  exact lexed

theorem QuotedTag.lexFrom_closing (tag : QuotedTag) (offset : Nat) (rest : List Char) :
    lexFrom .text offset (tag.closing ++ rest) =
      tag.closingAt offset :: lexFrom .text (offset + byteLength tag.closing) rest := by
  have lexed := lexFrom_closing_tag offset tag.name rest tag.letter tag.written
  simpa [QuotedTag.closing,QuotedTag.closingAt,QuotedTag.label] using lexed

theorem MarkupInterior.advance?_append (interior : MarkupInterior) (first second : List Char) :
    interior.advance? (first ++ second) =
      (interior.advance? first).bind fun middle => middle.advance? second := by
  induction first generalizing interior with
  | nil => rfl
  | cons c rest ih =>
    rw [List.cons_append,advance?,advance?]
    cases interior.next? c with
    | none => rfl
    | some next => exact ih next

theorem advance?_comment (dashes : Nat) (chars : List Char) (few : dashes ≤ 2)
    (inside : ¬ ['-','-','>'] <:+: List.replicate dashes '-' ++ chars) :
    ∃ count ≤ 2, MarkupInterior.advance? (.comment dashes) chars = some (.comment count) := by
  induction chars generalizing dashes with
  | nil => exact ⟨dashes,few,rfl⟩
  | cons c rest ih =>
    by_cases dash : c = '-'
    · subst dash
      have shorter : List.replicate (min (dashes + 1) 2) '-' ++ rest <:+
          List.replicate dashes '-' ++ '-' :: rest := by
        refine ⟨List.replicate (dashes + 1 - min (dashes + 1) 2) '-',?_⟩
        rw [← List.append_assoc,List.replicate_append_replicate,Nat.sub_add_cancel (Nat.min_le_left _ _),
          List.replicate_succ',List.append_assoc,List.singleton_append]
      exact ih (min (dashes + 1) 2) (Nat.min_le_right _ _) fun found =>
        inside (found.trans shorter.isInfix)
    · by_cases ended : c = '>' ∧ dashes = 2
      · obtain ⟨rfl,rfl⟩ := ended
        exact absurd ⟨[],rest,rfl⟩ inside
      · obtain ⟨count,small,passed⟩ := ih 0 (by omega) fun found =>
          inside (found.trans ⟨List.replicate dashes '-' ++ [c],[],by simp⟩)
        have stepped : MarkupInterior.next? (.comment dashes) c = some (.comment 0) := by
          simp [MarkupInterior.next?,dash]
          tauto
        exact ⟨count,small,by rw [MarkupInterior.advance?,stepped]; exact passed⟩

def LexPhase.rawRead? : LexPhase → Option (RawElement × List Char)
  | .raw element => some (element,[])
  | .rawBracket element _ => some (element,['<'])
  | .rawName element _ name => some (element,'<' :: '/' :: name.reverse)
  | _ => none

namespace LexPhase

theorem lower_of_endedBy (element : RawElement) (name : List Char)
    (ended : element.endedBy (nameOf name) = true) :
    name.reverse.map Char.toLower = element.name.toList := by
  rw [RawElement.endedBy,sameIgnoringCase,beq_iff_eq,asciiLower,asciiLower,String.ofList_inj,nameOf,
    String.toList_ofList] at ended
  rw [ended]
  cases element <;> decide

variable {offset : Nat} {c : Char} {phase next : LexPhase} {given : Option Tag} {element : RawElement}
  {read : List Char}

theorem Turn.raw_goes_on (turn : Turn offset c phase next given) (reading : phase.rawRead? = some (element,read))
    (inside : ¬ '<' :: '/' :: element.name.toList <:+: read.map Char.toLower) :
    given = none ∧ (∃ kept, next.rawRead? = some (element,kept) ∧ kept <:+ read ++ [c]) ∧
      (c = '<' → next = .rawBracket element offset) := by
  have foreign (chars : List Char) (read_ : read = '<' :: '/' :: chars.reverse) :
      element.endedBy (nameOf chars) = false := by
    rw [Bool.eq_false_iff]
    intro ended
    rw [read_,List.map_cons,List.map_cons,lower_of_endedBy element chars ended] at inside
    exact inside (List.infix_refl _)
  cases turn with
  | raw reads other =>
    cases reads <;> obtain ⟨rfl,rfl⟩ := Prod.mk.inj (Option.some.inj reading)
    all_goals exact ⟨rfl,⟨[],rfl,List.nil_suffix⟩,fun same => absurd same other⟩
  | rawBracket reads bracket =>
    subst bracket
    cases reads <;> obtain ⟨rfl,rfl⟩ := Prod.mk.inj (Option.some.inj reading)
    all_goals exact ⟨rfl,⟨['<'],rfl,List.suffix_append _ _⟩,fun _ => rfl⟩
  | rawSlash found start slash =>
    subst slash
    obtain ⟨rfl,rfl⟩ := Prod.mk.inj (Option.some.inj reading)
    exact ⟨rfl,⟨_,rfl,List.suffix_refl _⟩,by simp⟩
  | rawName found start chars named =>
    obtain ⟨rfl,rfl⟩ := Prod.mk.inj (Option.some.inj reading)
    refine ⟨rfl,⟨_,rfl,by simp⟩,?_⟩
    rintro rfl
    contradiction
  | closingInterior closing | closingEnd closing =>
    cases closing with
    | rawName found chars other own =>
      obtain ⟨rfl,rfl⟩ := Prod.mk.inj (Option.some.inj reading)
      rw [foreign chars rfl] at own
      contradiction
    | name | interior => contradiction
  | text reads | bracket reads => cases reads <;> contradiction
  | openingInterior opening | openingEnd opening => cases opening <;> contradiction
  | openingStart | openingName | slash | closingStart | closingName | bang | question | markup | markupEnd =>
    contradiction

end LexPhase

theorem lexFrom_raw (phase : LexPhase) (element : RawElement) (read : List Char)
    (reading : phase.rawRead? = some (element,read)) (offset : Nat) (chars rest : List Char)
    (inside : ¬ '<' :: '/' :: element.name.toList <:+: (read ++ chars).map Char.toLower) :
    lexFrom phase offset (chars ++ '<' :: rest) =
      lexFrom (.rawBracket element (offset + byteLength chars)) (offset + byteLength chars + 1) rest := by
  have before : ¬ '<' :: '/' :: element.name.toList <:+: read.map Char.toLower := fun found =>
    inside (found.trans (List.IsInfix.map Char.toLower ⟨[],chars,rfl⟩))
  induction chars generalizing phase read offset with
  | nil =>
    obtain ⟨none,_,bracket⟩ := (phase.step_turn offset '<').raw_goes_on reading before
    rw [List.nil_append,lexFrom_cons,none,bracket rfl]
    rfl
  | cons c chars ih =>
    obtain ⟨none,⟨kept,reads,passed,suffix⟩,_⟩ := (phase.step_turn offset c).raw_goes_on reading before
    have still : ¬ '<' :: '/' :: element.name.toList <:+: (kept ++ chars).map Char.toLower := fun found =>
      inside (found.trans (List.IsInfix.map Char.toLower ⟨passed,[],by
        rw [List.append_nil,← List.append_assoc,suffix]
        simp⟩))
    rw [List.cons_append,lexFrom_cons,none,Option.toList_none,List.nil_append,ih _ kept reads _ still fun found =>
      still (found.trans (List.IsInfix.map Char.toLower ⟨[],chars,rfl⟩)),byteLength_cons,Nat.add_assoc]

theorem lexFrom_rawName (element : RawElement) (start offset : Nat) (read name rest : List Char)
    (written : ∀ c ∈ name, isNameChar c = true)
    (ended : element.endedBy (LexPhase.nameOf (name.reverse ++ read)) = true) :
    lexFrom (.rawName element start read) offset (name ++ '>' :: rest) =
      ⟨.closing,LexPhase.nameOf (name.reverse ++ read),start,offset + byteLength name + 1,true⟩ ::
        lexFrom .text (offset + byteLength name + 1) rest := by
  induction name generalizing read offset with
  | nil =>
    have other : ¬ isNameChar '>' = true := by decide
    rw [List.nil_append,lexFrom,LexPhase.step,if_neg other,if_pos (by simpa using ended)]
    rfl
  | cons c name ih =>
    rw [List.reverse_cons,List.append_assoc,List.singleton_append] at ended
    rw [List.cons_append,lexFrom,LexPhase.step,if_pos (written c List.mem_cons_self)]
    dsimp only
    rw [ih _ _ (fun d member => written d (List.mem_cons_of_mem _ member)) ended,byteLength_cons]
    simp only [Nat.add_assoc,List.reverse_cons,List.append_assoc,List.singleton_append]

theorem QuotedTag.lexFrom_rawText (tag : QuotedTag) (element : RawElement)
    (kind : tag.elementName = element.name) (offset : Nat) (chars rest : List Char)
    (inside : ¬ '<' :: '/' :: element.name.toList <:+: chars.map Char.toLower) :
    lexFrom (.raw element) offset (chars ++ (tag.closing ++ rest)) =
      tag.closingAt (offset + byteLength chars) ::
        lexFrom .text (offset + byteLength chars + byteLength tag.closing) rest := by
  have spelled : LexPhase.nameOf (tag.name.reverse ++ []) = tag.label := by
    simp [LexPhase.nameOf,QuotedTag.label]
  have ended : element.endedBy (LexPhase.nameOf (tag.name.reverse ++ [])) = true := by
    rw [spelled,RawElement.endedBy,sameIgnoringCase,beq_iff_eq]
    change tag.elementName = _
    rw [kind]
    cases element <;> decide
  have size : byteLength tag.closing = 2 + byteLength tag.name + 1 := by
    simp only [QuotedTag.closing,byteLength_cons,byteLength_append,byteLength_nil]
    grind
  have parts : tag.closing ++ rest = '<' :: '/' :: (tag.name ++ '>' :: rest) := by
    simp [QuotedTag.closing]
  have slash (start offset : Nat) : LexPhase.step (.rawBracket element start) offset '/' =
      (.rawName element start [],none) := rfl
  rw [parts,lexFrom_raw (.raw element) element [] rfl offset chars _ inside,lexFrom,slash]
  dsimp only
  rw [lexFrom_rawName _ _ _ _ _ _ tag.written ended,spelled,QuotedTag.closingAt,size]
  have stop : offset + byteLength chars + 1 + Char.utf8Size '/' + byteLength tag.name + 1 =
      offset + byteLength chars + (2 + byteLength tag.name + 1) := by grind
  rw [stop]

theorem lexFrom_comment (offset : Nat) (chars rest : List Char)
    (inside : ¬ ['-','-','>'] <:+: '-' :: '-' :: chars) :
    lexFrom .text offset ('<' :: '!' :: '-' :: '-' :: (chars ++ '-' :: '-' :: '>' :: rest)) =
      ⟨.markup,"",offset,
          offset + byteLength ('<' :: '!' :: '-' :: '-' :: (chars ++ ['-','-','>'])),true⟩ ::
        lexFrom .text (offset + byteLength ('<' :: '!' :: '-' :: '-' :: (chars ++ ['-','-','>'])))
          rest := by
  have one : Char.utf8Size '<' = 1 ∧ Char.utf8Size '!' = 1 ∧ Char.utf8Size '-' = 1 ∧
    Char.utf8Size '>' = 1 := ⟨rfl,rfl,rfl,rfl⟩
  obtain ⟨count,few,passed⟩ := advance?_comment 2 chars (by omega) inside
  have ending : MarkupInterior.advance? (.comment count) ['-','-'] = some (.comment 2) := by
    have first : min (min (count + 1) 2 + 1) 2 = 2 := by omega
    exact congrArg (fun dashes => some (MarkupInterior.comment dashes)) first
  have whole : MarkupInterior.advance? .bang ('-' :: '-' :: (chars ++ ['-','-'])) = some (.comment 2) := by
    change MarkupInterior.advance? (.comment 2) (chars ++ ['-','-']) = _
    rw [MarkupInterior.advance?_append,passed,Option.bind_some,ending]
  have first : LexPhase.step .text offset '<' = (.bracket offset,none) := rfl
  have second : LexPhase.step (.bracket offset) (offset + 1) '!' = (.markup offset .bang,none) := rfl
  have lexed := lexFrom_markup offset (offset + 1 + 1) .bang (.comment 2) _ rest whole rfl
  have size : offset + byteLength ('<' :: '!' :: '-' :: '-' :: (chars ++ ['-','-','>'])) =
      offset + 1 + 1 + byteLength ('-' :: '-' :: (chars ++ ['-','-'])) + 1 := by
    simp only [byteLength_cons,byteLength_append,byteLength_nil]
    omega
  have body : '-' :: '-' :: (chars ++ '-' :: '-' :: '>' :: rest) =
      '-' :: '-' :: (chars ++ ['-','-']) ++ '>' :: rest := by simp
  rw [size,lexFrom,first]
  dsimp only
  rw [show offset + ('<').utf8Size = offset + 1 from rfl,lexFrom,second,body]
  exact lexed

theorem afterOpening_lone (tag : QuotedTag) (kind : tag.slash = true ∨ isVoid tag.elementName = true) :
    LexPhase.afterOpening tag.label tag.slash = .text := by
  unfold LexPhase.afterOpening
  rcases kind with slash | void
  · rw [if_pos slash]
  · have cooked : RawElement.ofName? tag.label = none := by
      unfold RawElement.ofName?
      change (if tag.elementName = "script" then _ else if tag.elementName = "style" then _ else _) = _
      split_ifs with script style
      · rw [script] at void
        exact absurd void (by decide)
      · rw [style] at void
        exact absurd void (by decide)
      · rfl
    split_ifs
    · rfl
    · rw [cooked]

theorem afterOpening_raw (tag : QuotedTag) (element : RawElement) (open_ : tag.slash = false)
    (kind : tag.elementName = element.name) :
    LexPhase.afterOpening tag.label tag.slash = .raw element := by
  have found : RawElement.ofName? tag.label = some element := by
    unfold RawElement.ofName?
    change (if tag.elementName = "script" then _ else if tag.elementName = "style" then _ else _) = _
    rw [kind]
    cases element <;> rfl
  simp [LexPhase.afterOpening,open_,found]

/-- The lexer finds the tags that the text of a forest was made from. -/
theorem MarkupForest.lexFrom_render (forest : MarkupForest) (offset : Nat) (rest : List Char) :
    lexFrom .text offset (forest.render ++ rest) =
      forest.tags offset ++ lexFrom .text (offset + byteLength forest.render) rest := by
  induction forest generalizing offset rest with
  | nil => rfl
  | text chars plain others ih =>
    rw [render,tags,List.append_assoc,lexFrom_text _ _ _ plain,ih,byteLength_append,Nat.add_assoc]
  | comment chars inside others ih =>
    have parts : render (.comment chars inside others) ++ rest =
        '<' :: '!' :: '-' :: '-' :: (chars ++ '-' :: '-' :: '>' :: (others.render ++ rest)) := by
      simp [render]
    have size : byteLength (render (.comment chars inside others)) =
        byteLength ('<' :: '!' :: '-' :: '-' :: (chars ++ ['-','-','>'])) + byteLength others.render := by
      simp only [render,byteLength_cons,byteLength_append,byteLength_nil]
      omega
    rw [parts,lexFrom_comment _ _ _ inside,ih,size,← Nat.add_assoc]
    rfl
  | lone tag kind others ih =>
    rw [render,List.append_assoc,tag.lexFrom_render,afterOpening_lone tag kind,ih,byteLength_append,
      ← Nat.add_assoc]
    rfl
  | raw element tag chars open_ kind inside others ih =>
    rw [render,List.append_assoc,tag.lexFrom_render,afterOpening_raw tag element open_ kind,List.append_assoc,
      List.append_assoc,tag.lexFrom_rawText element kind _ _ _ inside,ih]
    simp only [tags,byteLength_append,List.cons_append,Nat.add_assoc]
  | element tag children open_ content cooked others inner ih =>
    have text : LexPhase.afterOpening tag.label tag.slash = .text := by
      simp [LexPhase.afterOpening,cooked]
    rw [render,List.append_assoc,tag.lexFrom_render,text,List.append_assoc,inner,List.append_assoc,
      tag.lexFrom_closing,ih]
    simp only [tags,byteLength_append,List.cons_append,List.append_assoc,Nat.add_assoc]

theorem MarkupForest.lex_render (forest : MarkupForest) : lex forest.render = forest.tags 0 := by
  have lexed := forest.lexFrom_render 0 []
  rw [List.append_nil] at lexed
  rw [lex,lexed]
  exact List.append_nil _

end AccessibleMarkup.Markup
