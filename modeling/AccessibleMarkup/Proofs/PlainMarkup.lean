import AccessibleMarkup.Markup.ControlFlow
import AccessibleMarkup.Proofs.RegularTags

/-! Plain markup: a text given by its tags and the text between them, where every tag is written out
and nothing is template code. The lexer, the filter and the reader of attributes find in such a text
exactly what it was made from. -/
namespace AccessibleMarkup.Markup

open Text

def isPlainChar (c : Char) : Bool := c != '<' && c != '\x7b'

/-- How an attribute of plain markup gives its value. -/
inductive PlainValue where
  | bare
  | unquoted (chars : List Char) (nonempty : chars ≠ [])
      (written : ∀ c ∈ chars, isPlainChar c = true ∧ isMarkupSpace c = false ∧ c ≠ '>' ∧ c ≠ '"' ∧
        c ≠ '\'' ∧ c ≠ '=')
      (last : chars.getLast? ≠ some '/')
  | quoted (mark : Char) (chars : List Char) (quote : mark = '"' ∨ mark = '\'')
      (written : ∀ c ∈ chars, isPlainChar c = true ∧ c ≠ mark)

namespace PlainValue

/-- The value with its equals sign and quotes. -/
def render : PlainValue → List Char
  | bare => []
  | unquoted chars _ _ _ => '=' :: chars
  | quoted mark chars _ _ => '=' :: mark :: chars ++ [mark]

def isUnquoted : PlainValue → Bool
  | unquoted _ _ _ _ => true
  | _ => false

end PlainValue

/-- An attribute with the white space before it. -/
structure PlainAttribute where
  space : List Char
  name : List Char
  value : PlainValue
  separated : space ≠ []
  blank : ∀ c ∈ space, isMarkupSpace c = true
  nonempty : name ≠ []
  written : ∀ c ∈ name, isPlainChar c = true ∧ endsName c = false ∧ c ≠ '='

namespace PlainAttribute

def label (attr : PlainAttribute) : String := String.ofList attr.name

def render (attr : PlainAttribute) : List Char := attr.space ++ attr.name ++ attr.value.render

/-- The attribute as it is read when its white space starts at an offset. -/
def place (attr : PlainAttribute) (offset : Nat) : Attribute :=
  let start := offset + byteLength attr.space
  let stop := start + byteLength attr.name
  let name : WrittenName := ⟨attr.label,⟨start,stop⟩⟩
  match attr.value with
  | .bare => name.bare
  | .unquoted chars _ _ _ =>
    name.withValue .unquoted chars.reverse ⟨stop + 1,stop + 1 + byteLength chars⟩
      (stop + 1 + byteLength chars)
  | .quoted mark chars _ _ =>
    name.withValue (AttributePhase.quoteOf mark) chars.reverse
      ⟨stop + 2,stop + 2 + byteLength chars⟩ (stop + 2 + byteLength chars + 1)

def placeAll : List PlainAttribute → Nat → List Attribute
  | [], _ => []
  | attr :: rest, offset => attr.place offset :: placeAll rest (offset + byteLength attr.render)

end PlainAttribute

/-- The tag that starts an element. -/
structure PlainTag where
  name : List Char
  attributes : List PlainAttribute
  /-- White space after the last attribute. -/
  space : List Char
  slash : Bool
  letter : ∃ c rest, name = c :: rest ∧ c.isAlpha = true
  written : ∀ c ∈ name, isNameChar c = true
  cooked : RawElement.ofName? (String.ofList name) = none
  foreign : inNameSpaces Filter.defaultNameSpaces (String.ofList name) = false
  distinct : attributes.Pairwise fun first second =>
    sameIgnoringCase first.label second.label = false
  blank : ∀ c ∈ space, isMarkupSpace c = true
  ended : slash = true → space = [] → ∀ attr ∈ attributes, attr.value.isUnquoted = false

namespace PlainTag

def label (tag : PlainTag) : String := String.ofList tag.name

def tail (tag : PlainTag) : List Char := tag.space ++ (if tag.slash then ['/'] else []) ++ ['>']

def inner (tag : PlainTag) : List Char := tag.attributes.flatMap (·.render) ++ tag.tail

def render (tag : PlainTag) : List Char := '<' :: (tag.name ++ tag.inner)

end PlainTag

namespace MarkupInterior

def advance? : MarkupInterior → List Char → Option MarkupInterior
  | interior, [] => some interior
  | interior, c :: rest => (interior.next? c).bind fun next => next.advance? rest

end MarkupInterior

/-- A piece of plain markup. -/
inductive Token where
  | text (chars : List Char) (nonempty : chars ≠ []) (plain : ∀ c ∈ chars, isPlainChar c = true)
  /-- A comment or a declaration. -/
  | markup (body : List Char) (plain : ∀ c ∈ body, isPlainChar c = true)
      (ended : ((MarkupInterior.bang.advance? body).bind (·.next? '>')) = none)
      (open_ : (MarkupInterior.bang.advance? body).isSome = true)
  | opening (tag : PlainTag)
  | closing (name : List Char) (letter : ∃ c rest, name = c :: rest ∧ c.isAlpha = true)
      (written : ∀ c ∈ name, isNameChar c = true)
      (foreign : inNameSpaces Filter.defaultNameSpaces (String.ofList name) = false)

namespace Token

def render : Token → List Char
  | text chars _ _ => chars
  | markup body _ _ _ => '<' :: '!' :: body ++ ['>']
  | opening tag => tag.render
  | closing name _ _ _ => '<' :: '/' :: name ++ ['>']

def tag? (token : Token) (offset : Nat) : Option Tag :=
  let stop := offset + byteLength token.render
  match token with
  | text _ _ _ => none
  | markup _ _ _ _ => some ⟨.markup,"",offset,stop,true⟩
  | opening tag => some ⟨.opening tag.slash,tag.label,offset,stop,true⟩
  | closing name _ _ _ => some ⟨.closing,String.ofList name,offset,stop,true⟩

end Token

def renderAll (tokens : List Token) : List Char := tokens.flatMap (·.render)

def tagsFrom : Nat → List Token → List Tag
  | _, [] => []
  | offset, token :: rest =>
    (token.tag? offset).toList ++ tagsFrom (offset + byteLength token.render) rest

namespace PlainValue

/-- The value without what plain markup asks of its characters. -/
def regular : PlainValue → RegularValue
  | bare => .bare
  | unquoted chars nonempty written _ => .unquoted .tight chars nonempty fun c member =>
    ⟨(written c member).2.1,(written c member).2.2.2.1,(written c member).2.2.2.2.1,(written c member).2.2.2.2.2,
      (written c member).2.2.1⟩
  | quoted mark chars quote written => .quoted .tight mark chars quote fun c member => (written c member).2

@[simp] theorem regular_render (value : PlainValue) : value.regular.render = value.render := by
  cases value <;> rfl

theorem regular_isUnquoted (value : PlainValue) : value.regular.isUnquoted = value.isUnquoted := by
  cases value <;> rfl

theorem regular_slashed (value : PlainValue) : value.regular.slashed = false := by
  cases value with
  | bare => rfl
  | unquoted chars nonempty written last => exact decide_eq_false last
  | quoted => rfl

end PlainValue

namespace PlainAttribute

def regular (attr : PlainAttribute) : RegularAttribute where
  space := attr.space
  name := attr.name
  value := attr.value.regular
  separated := attr.separated
  blank := attr.blank
  nonempty := attr.nonempty
  written c member := (attr.written c member).2

@[simp] theorem regular_render (attr : PlainAttribute) : attr.regular.render = attr.render := by
  rw [RegularAttribute.render,render,List.append_assoc,← attr.value.regular_render]
  rfl

@[simp] theorem flatMap_regular (attributes : List PlainAttribute) :
    (attributes.map regular).flatMap (·.render) = attributes.flatMap (·.render) := by
  simp only [List.flatMap_map,regular_render]

theorem regular_place (attr : PlainAttribute) (offset : Nat) : attr.regular.place offset = attr.place offset := by
  unfold RegularAttribute.place place
  dsimp only [regular]
  cases attr.value <;> rfl

theorem placeAll_regular (attributes : List PlainAttribute) (offset : Nat) :
    RegularAttribute.placeAll (attributes.map regular) offset = placeAll attributes offset := by
  induction attributes generalizing offset with
  | nil => rfl
  | cons attr rest ih =>
    rw [List.map_cons,RegularAttribute.placeAll,placeAll,regular_place,regular_render,ih]

end PlainAttribute

namespace PlainTag

def regular (tag : PlainTag) : RegularTag where
  name := tag.name
  attributes := tag.attributes.map (·.regular)
  space := tag.space
  slash := tag.slash
  letter := tag.letter
  written := tag.written
  blank := tag.blank
  ended nothing attr member unquoted := by
    obtain ⟨plain,present,rfl⟩ := List.mem_map.mp member
    refine ⟨Bool.eq_false_iff.mpr fun slash => ?_,plain.value.regular_slashed⟩
    have quoted := tag.ended slash nothing plain present
    rw [← plain.value.regular_isUnquoted] at quoted
    exact Bool.noConfusion (quoted.symm.trans unquoted)

theorem regular_tail (tag : PlainTag) : tag.regular.tail = tag.tail := by
  rw [RegularTag.tail,tail,List.append_assoc]
  rfl

theorem regular_inner (tag : PlainTag) : tag.regular.inner = tag.inner := by
  rw [RegularTag.inner_eq,inner,regular_tail,regular,PlainAttribute.flatMap_regular]

@[simp] theorem regular_render (tag : PlainTag) : tag.regular.render = tag.render := by
  rw [RegularTag.render,render,regular_inner]
  rfl

/-- The tag is one that the lexer finds wherever it may start, and with nothing after it. -/
theorem lexFrom_render (tag : PlainTag) (offset : Nat) (rest : List Char) :
    lexFrom .text offset (tag.render ++ rest) =
      ⟨.opening tag.slash,tag.label,offset,offset + byteLength tag.render,true⟩ ::
        lexFrom .text (offset + byteLength tag.render) rest := by
  have after : LexPhase.afterOpening tag.label tag.slash = .text := by
    unfold LexPhase.afterOpening
    rw [label,tag.cooked,ite_self]
  rw [← regular_render,tag.regular.lexFrom_render,← after]
  rfl

end PlainTag

theorem not_mem_of_plain {chars : List Char} (plain : ∀ c ∈ chars, isPlainChar c = true) : '<' ∉ chars :=
  fun member => absurd (plain '<' member) (by decide)

theorem lexFrom_markup (start offset : Nat) (interior last : MarkupInterior) (body rest : List Char)
    (passed : interior.advance? body = some last) (ended : last.next? '>' = none) :
    lexFrom (.markup start interior) offset (body ++ '>' :: rest) =
      ⟨.markup,"",start,offset + byteLength body + 1,true⟩ ::
        lexFrom .text (offset + byteLength body + 1) rest := by
  induction body generalizing interior offset with
  | nil =>
    obtain rfl := Option.some.inj passed
    rw [List.nil_append,lexFrom,LexPhase.step,ended]
    rfl
  | cons c body ih =>
    rw [MarkupInterior.advance?] at passed
    obtain ⟨next,stepped,passed⟩ := Option.bind_eq_some_iff.mp passed
    rw [List.cons_append,lexFrom,LexPhase.step,stepped]
    dsimp only
    rw [ih _ _ passed,byteLength_cons]
    simp only [Nat.add_assoc]

theorem Token.lexFrom_render (token : Token) (offset : Nat) (rest : List Char) :
    lexFrom .text offset (token.render ++ rest) =
      (token.tag? offset).toList ++ lexFrom .text (offset + byteLength token.render) rest := by
  cases token with
  | text chars nonempty plain => exact lexFrom_text offset chars rest (not_mem_of_plain plain)
  | markup body plain ended inside =>
    obtain ⟨last,passed⟩ := Option.isSome_iff_exists.mp inside
    rw [passed,Option.bind_some] at ended
    have first : LexPhase.step .text offset '<' = (.bracket offset,none) := rfl
    have second : LexPhase.step (.bracket offset) (offset + 1) '!' = (.markup offset .bang,none) := rfl
    have size : offset + byteLength ('<' :: '!' :: body ++ ['>']) =
        offset + 1 + ('!').utf8Size + byteLength body + 1 := by
      simp only [byteLength_cons,byteLength_append,byteLength_nil]
      grind
    rw [tag?,render,size,List.cons_append,List.cons_append,List.append_assoc,List.singleton_append,lexFrom,
      first]
    dsimp only
    rw [List.cons_append,show offset + ('<').utf8Size = offset + 1 from rfl,lexFrom,second]
    dsimp only
    rw [lexFrom_markup _ _ _ _ _ _ passed ended]
    rfl
  | opening tag => exact tag.lexFrom_render offset rest
  | closing name letter written foreign =>
    have lexed := lexFrom_closing_tag offset name rest letter written
    simpa [render,tag?] using lexed

theorem lexFrom_renderAll (tokens : List Token) (offset : Nat) :
    lexFrom .text offset (renderAll tokens) = tagsFrom offset tokens := by
  induction tokens generalizing offset with
  | nil => rfl
  | cons token rest ih =>
    rw [renderAll,List.flatMap_cons,token.lexFrom_render,tagsFrom]
    congr 1
    exact ih _

theorem lex_renderAll (tokens : List Token) : lex (renderAll tokens) = tagsFrom 0 tokens :=
  lexFrom_renderAll tokens 0

theorem starting?_none (c : Char) (rest : List Char) (brace : c ≠ '\x7b')
    (bracket : c = '<' → ∃ d more, rest = d :: more ∧ d ≠ '%') :
    Delimiter.starting? (c :: rest) = none := by
  unfold Delimiter.starting?
  split
  · rfl
  · by_cases opened : c = '<'
    · obtain ⟨d,more,rfl,other⟩ := bracket opened
      subst opened
      simp [Delimiter.all,List.isPrefixOf,other.symm]
    · have brace := Ne.symm brace
      have opened := Ne.symm opened
      simp [Delimiter.all,List.isPrefixOf,brace,opened]

theorem statementRangesFrom_plain (chars rest : List Char) (offset : Nat)
    (plain : ∀ c ∈ chars, isPlainChar c = true) :
    statementRangesFrom (.outside 0) offset (chars ++ rest) =
      statementRangesFrom (.outside 0) (offset + byteLength chars) rest := by
  induction chars generalizing offset with
  | nil => rfl
  | cons c chars ih =>
    have here := plain c List.mem_cons_self
    simp only [isPlainChar,Bool.and_eq_true,bne_iff_ne,ne_eq] at here
    rw [List.cons_append,statementRangesFrom,
      starting?_none c _ here.2 fun bracket => absurd bracket here.1]
    dsimp only
    rw [ih _ fun d member => plain d (List.mem_cons_of_mem _ member),byteLength_cons,Nat.add_assoc]

theorem isPlainChar_of_isNameChar {c : Char} (named : isNameChar c = true) : isPlainChar c = true := by
  rw [isPlainChar,Bool.and_eq_true,bne_iff_ne,bne_iff_ne]
  constructor
  · rintro rfl
    exact absurd named (by decide)
  · rintro rfl
    exact absurd named (by decide)

theorem isPlainChar_of_isMarkupSpace {c : Char} (space : isMarkupSpace c = true) :
    isPlainChar c = true := by
  obtain ⟨_,_,_,bracket,brace⟩ := isMarkupSpace_other space
  simp [isPlainChar,bracket,brace]

theorem PlainAttribute.render_plain (attr : PlainAttribute) :
    ∀ c ∈ attr.render, isPlainChar c = true := by
  intro c member
  simp only [render,List.mem_append] at member
  rcases member with (blank | named) | valued
  · exact isPlainChar_of_isMarkupSpace (attr.blank c blank)
  · exact (attr.written c named).1
  · cases kind : attr.value with
    | bare =>
      rw [kind] at valued
      contradiction
    | unquoted chars nonempty written last =>
      rw [kind] at valued
      rcases List.mem_cons.mp valued with rfl | inside
      · decide
      · exact (written c inside).1
    | quoted mark chars quote written =>
      have marked : isPlainChar mark = true := by rcases quote with rfl | rfl <;> decide
      rw [kind] at valued
      simp only [PlainValue.render,List.cons_append,List.mem_cons,List.mem_append,List.not_mem_nil,
        or_false] at valued
      rcases valued with rfl | rfl | inside | rfl
      · decide
      · exact marked
      · exact (written c inside).1
      · exact marked

theorem PlainTag.render_plain (tag : PlainTag) :
    ∀ c ∈ tag.name ++ tag.inner, isPlainChar c = true := by
  intro c member
  simp only [inner,tail,List.mem_append,List.mem_flatMap,List.mem_singleton] at member
  rcases member with named | ⟨attr,_,inside⟩ | (blank | slash) | rfl
  · exact isPlainChar_of_isNameChar (tag.written c named)
  · exact attr.render_plain c inside
  · exact isPlainChar_of_isMarkupSpace (tag.blank c blank)
  · split at slash
    · rw [List.mem_singleton.mp slash]
      decide
    · contradiction
  · decide

theorem Token.render_cases (token : Token) :
    (∀ c ∈ token.render, isPlainChar c = true) ∨
      ∃ d more, token.render = '<' :: d :: more ∧ d ≠ '%' ∧ ∀ c ∈ d :: more, isPlainChar c = true := by
  cases token with
  | text chars nonempty plain => exact Or.inl plain
  | markup body plain ended inside =>
    refine Or.inr ⟨'!',body ++ ['>'],rfl,by decide,fun c member => ?_⟩
    simp only [List.mem_cons,List.mem_append,List.not_mem_nil,or_false] at member
    rcases member with rfl | inside | rfl
    · decide
    · exact plain c inside
    · decide
  | opening tag =>
    obtain ⟨d,rest,named,letter⟩ := tag.letter
    refine Or.inr ⟨d,rest ++ tag.inner,by simp [render,PlainTag.render,named],?_,?_⟩
    · rintro rfl
      exact absurd letter (by decide)
    · have plain := tag.render_plain
      rwa [named] at plain
  | closing name letter written foreign =>
    refine Or.inr ⟨'/',name ++ ['>'],rfl,by decide,fun c member => ?_⟩
    simp only [List.mem_cons,List.mem_append,List.not_mem_nil,or_false] at member
    rcases member with rfl | inside | rfl
    · decide
    · exact isPlainChar_of_isNameChar (written c inside)
    · decide

theorem statementRangesFrom_renderAll (tokens : List Token) (offset : Nat) :
    statementRangesFrom (.outside 0) offset (renderAll tokens) = [] := by
  induction tokens generalizing offset with
  | nil => rfl
  | cons token rest ih =>
    rw [renderAll,List.flatMap_cons]
    rcases token.render_cases with plain | ⟨d,more,same,other,plain⟩
    · rw [statementRangesFrom_plain _ _ _ plain]
      exact ih _
    · have none : Delimiter.starting? ('<' :: (d :: more ++ rest.flatMap (·.render))) = none :=
        starting?_none '<' _ (by decide) fun _ => ⟨d,more ++ rest.flatMap (·.render),rfl,other⟩
      rw [same,List.cons_append,statementRangesFrom,none]
      dsimp only
      rw [statementRangesFrom_plain _ _ _ plain]
      exact ih _

theorem tagsFrom_foreign (tokens : List Token) (offset : Nat) :
    ∀ tag ∈ tagsFrom offset tokens,
      (!tag.isMarkup && inNameSpaces Filter.defaultNameSpaces tag.name) = false := by
  induction tokens generalizing offset with
  | nil => simp [tagsFrom]
  | cons token rest ih =>
    intro tag member
    rcases List.mem_append.mp member with here | later
    · cases token with
      | text chars nonempty plain => contradiction
      | markup body plain ended inside =>
        rw [List.mem_singleton.mp here]
        rfl
      | opening found =>
        rw [List.mem_singleton.mp here]
        exact found.foreign
      | closing name letter written foreign =>
        rw [List.mem_singleton.mp here]
        exact foreign
    · exact ih _ tag later

theorem filter_renderAll (tokens : List Token) :
    (Filter.controlFlow Filter.defaultNameSpaces).apply (renderAll tokens) = renderAll tokens := by
  have tags : controlTagRanges Filter.defaultNameSpaces (renderAll tokens) = [] := by
    rw [controlTagRanges,lex_renderAll,List.map_eq_nil_iff,List.filter_eq_nil_iff]
    intro tag member
    rw [tagsFrom_foreign tokens 0 tag member]
    simp
  have statements : statementRanges (renderAll tokens) = [] := statementRangesFrom_renderAll tokens 0
  simp only [Filter.apply,Filter.ranges,statements,tags,List.append_nil]

end AccessibleMarkup.Markup
