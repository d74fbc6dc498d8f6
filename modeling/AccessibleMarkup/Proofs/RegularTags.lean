import AccessibleMarkup.Proofs.AttributeInsertion
import Mathlib.Data.List.Induction

/-! Regular opening tags: a name, attributes with white space before each of them, and the end. Values are
in quotes, or without them as long as what follows is not taken for a part of them. The lexer ends a regular
tag at its last character, and its attributes are read as they are written. -/
namespace AccessibleMarkup.Markup

open Text

/-- What an attribute says, wherever it stands. -/
structure Attribute.Content where
  name : String
  value : String
  quote : Quote
  deriving DecidableEq, Repr

def Attribute.content (attr : Attribute) : Attribute.Content := ⟨attr.name,attr.value,attr.quote⟩

/-- An equals sign, with white space around it or without. -/
structure EqualsSign where
  front : List Char
  back : List Char
  blank : ∀ c ∈ front ++ back, isMarkupSpace c = true

def EqualsSign.render (sign : EqualsSign) : List Char := sign.front ++ '=' :: sign.back

/-- How a regular attribute gives its value. -/
inductive RegularValue where
  | bare
  | unquoted (sign : EqualsSign) (chars : List Char) (nonempty : chars ≠ [])
      (written : ∀ c ∈ chars, isMarkupSpace c = false ∧ c ≠ '"' ∧ c ≠ '\'' ∧ c ≠ '=' ∧ c ≠ '>')
  | quoted (sign : EqualsSign) (mark : Char) (chars : List Char) (isMark : mark = '"' ∨ mark = '\'')
      (inside : ∀ c ∈ chars, c ≠ mark)

namespace RegularValue

def render : RegularValue → List Char
  | bare => []
  | unquoted sign chars _ _ => sign.render ++ chars
  | quoted sign mark chars _ _ => sign.render ++ mark :: (chars ++ [mark])

def isUnquoted : RegularValue → Bool
  | unquoted _ _ _ _ => true
  | _ => false

def slashed : RegularValue → Bool
  | unquoted _ chars _ _ => chars.getLast? = some '/'
  | _ => false

end RegularValue

/-- An attribute with the white space before it. -/
structure RegularAttribute where
  space : List Char
  name : List Char
  value : RegularValue
  separated : space ≠ []
  blank : ∀ c ∈ space, isMarkupSpace c = true
  nonempty : name ≠ []
  written : ∀ c ∈ name, endsName c = false ∧ c ≠ '='

namespace RegularAttribute

def label (attr : RegularAttribute) : String := String.ofList attr.name

def render (attr : RegularAttribute) : List Char := attr.space ++ (attr.name ++ attr.value.render)

/-- The attribute as it is read when its white space starts at an offset. -/
def place (attr : RegularAttribute) (offset : Nat) : Attribute :=
  let start := offset + byteLength attr.space
  let stop := start + byteLength attr.name
  let name : WrittenName := ⟨attr.label,⟨start,stop⟩⟩
  match attr.value with
  | .bare => name.bare
  | .unquoted sign chars _ _ =>
    let first := stop + byteLength sign.render
    name.withValue .unquoted chars.reverse ⟨first,first + byteLength chars⟩ (first + byteLength chars)
  | .quoted sign mark chars _ _ =>
    let first := stop + byteLength sign.render + 1
    name.withValue (AttributePhase.quoteOf mark) chars.reverse ⟨first,first + byteLength chars⟩
      (first + byteLength chars + 1)

def placeAll : List RegularAttribute → Nat → List Attribute
  | [], _ => []
  | attr :: rest, offset => attr.place offset :: placeAll rest (offset + byteLength attr.render)

def content (attr : RegularAttribute) : Attribute.Content := (attr.place 0).content

end RegularAttribute

/-- An opening tag with regular attributes. Directly before its end no value is without quotes if a slash
follows or if the value ends with one. -/
structure RegularTag where
  name : List Char
  attributes : List RegularAttribute
  /-- White space after the last attribute. -/
  space : List Char
  slash : Bool
  letter : ∃ c rest, name = c :: rest ∧ c.isAlpha = true
  written : ∀ c ∈ name, isNameChar c = true
  blank : ∀ c ∈ space, isMarkupSpace c = true
  ended : space = [] → ∀ attr ∈ attributes, attr.value.isUnquoted = true →
    slash = false ∧ attr.value.slashed = false

theorem blank_nil : ∀ c ∈ ([] : List Char), isMarkupSpace c = true := fun _ member => absurd member List.not_mem_nil

def EqualsSign.tight : EqualsSign := ⟨[],[],blank_nil⟩

namespace RegularTag

def ofQuoted (name : List Char) (letter : ∃ c rest, name = c :: rest ∧ c.isAlpha = true)
    (written : ∀ c ∈ name, isNameChar c = true) (attributes : List RegularAttribute)
    (quoted : ∀ attr ∈ attributes, attr.value.isUnquoted = false) : RegularTag where
  name
  attributes
  space := []
  slash := false
  letter
  written
  blank := blank_nil
  ended _ attr member unquoted := absurd (unquoted.symm.trans (quoted attr member)) Bool.noConfusion

def label (tag : RegularTag) : String := String.ofList tag.name

def body (tag : RegularTag) : List Char :=
  tag.attributes.flatMap (·.render) ++ (tag.space ++ (if tag.slash then ['/'] else []))

def inner (tag : RegularTag) : List Char := tag.body ++ ['>']

def render (tag : RegularTag) : List Char := '<' :: (tag.name ++ tag.inner)

end RegularTag

theorem isMarkupSpace_other {c : Char} (space : isMarkupSpace c = true) :
    c ≠ '>' ∧ c ≠ '=' ∧ c ≠ '/' ∧ c ≠ '<' ∧ c ≠ '\x7b' := by
  simp only [isMarkupSpace,Bool.or_eq_true,beq_iff_eq] at space
  rcases space with (((rfl | rfl) | rfl) | rfl) | rfl <;> decide

theorem endsName_other {c : Char} (continues : endsName c = false) : c ≠ '>' ∧ c ≠ '/' := by
  constructor
  · rintro rfl
    exact absurd continues (by decide)
  · rintro rfl
    exact absurd continues (by decide)

namespace TagInterior

theorem advance?_cons (interior : TagInterior) (c : Char) (rest : List Char)
    (inside : interior.endsAt c = false) :
    interior.advance? (c :: rest) = (interior.next c).advance? rest := by
  rw [advance?,inside]
  rfl

theorem advance?_plain (slash : Bool) (chars : List Char) (nonempty : chars ≠ [])
    (outside : ∀ c ∈ chars, c ≠ '>' ∧ c ≠ '=') :
    (plain slash).advance? chars = some (plain (decide (chars.getLast? = some '/'))) := by
  induction chars generalizing slash with
  | nil => contradiction
  | cons c rest ih =>
    obtain ⟨bracket,equals⟩ := outside c List.mem_cons_self
    rw [advance?_cons _ _ _ (by simp [endsAt,bracket]),next,if_neg equals]
    cases rest with
    | nil => simp [advance?]
    | cons d rest =>
      rw [ih _ (by simp) fun e member => outside e (List.mem_cons_of_mem _ member)]
      simp

theorem advance?_quoted (mark : Char) (chars : List Char) (inside : ∀ c ∈ chars, c ≠ mark) :
    (quoted mark).advance? chars = some (quoted mark) := by
  induction chars with
  | nil => rfl
  | cons c rest ih =>
    rw [advance?_cons _ _ _ rfl,next,if_neg (inside c List.mem_cons_self)]
    exact ih fun d member => inside d (List.mem_cons_of_mem _ member)

theorem advance?_name (slash : Bool) (space name : List Char) (blank : ∀ c ∈ space, c ≠ '>' ∧ c ≠ '=')
    (nonempty : name ≠ []) (written : ∀ c ∈ name, endsName c = false ∧ c ≠ '=') :
    (plain slash).advance? (space ++ name) = some (plain false) := by
  have outside : ∀ c ∈ space ++ name, c ≠ '>' ∧ c ≠ '=' := by
    intro c member
    rcases List.mem_append.mp member with before | named
    · exact blank c before
    · obtain ⟨continues,equals⟩ := written c named
      exact ⟨(endsName_other continues).1,equals⟩
  have last : ¬ (space ++ name).getLast? = some '/' := by
    rw [List.getLast?_append,List.getLast?_eq_some_getLast nonempty]
    intro slash
    have member := List.getLast_mem nonempty
    rw [Option.some.inj slash] at member
    exact (endsName_other (written '/' member).1).2 rfl
  rw [advance?_plain _ _ (by simp [nonempty]) outside,decide_eq_false last]

theorem advance?_value (mark : Char) (chars : List Char) (isMark : mark = '"' ∨ mark = '\'')
    (inside : ∀ c ∈ chars, c ≠ mark) : value.advance? (mark :: (chars ++ [mark])) = some (plain false) := by
  have opened : next value mark = quoted mark := by rcases isMark with rfl | rfl <;> rfl
  have bracket : endsAt value mark = false := by rcases isMark with rfl | rfl <;> rfl
  rw [advance?_cons _ _ _ bracket,opened,advance?_append,advance?_quoted _ _ inside,Option.bind_some,
    advance?_cons _ _ _ rfl]
  simp [next,advance?]

theorem advance?_end (last slash : Bool) (space : List Char) (blank : ∀ c ∈ space, c ≠ '>' ∧ c ≠ '=' ∧ c ≠ '/')
    (left : space = [] → slash = false → last = false) :
    (plain last).advance? (space ++ (if slash then ['/'] else [])) = some (plain slash) := by
  cases slash with
  | true =>
    have outside : ∀ c ∈ space ++ ['/'], c ≠ '>' ∧ c ≠ '=' := by
      intro c member
      rcases List.mem_append.mp member with before | slash
      · exact ⟨(blank c before).1,(blank c before).2.1⟩
      · rw [List.mem_singleton.mp slash]
        decide
    rw [if_pos rfl,advance?_plain _ _ (by simp) outside]
    simp
  | false =>
    rw [if_neg (by decide),List.append_nil]
    cases spaces : space with
    | nil =>
      rw [left spaces rfl]
      rfl
    | cons c rest =>
      rw [← spaces,advance?_plain _ _ (by simp [spaces]) fun d member => ⟨(blank d member).1,(blank d member).2.1⟩,
        decide_eq_false fun slash => (blank '/' (List.mem_of_getLast? slash)).2.2 rfl]

end TagInterior

theorem TagInterior.advance?_equals (slash : Bool) (sign : EqualsSign) :
    (TagInterior.plain slash).advance? sign.render = some .value := by
  have front : ∃ last, (TagInterior.plain slash).advance? sign.front = some (.plain last) := by
    cases chars : sign.front with
    | nil => exact ⟨slash,rfl⟩
    | cons c rest =>
      rw [← chars]
      refine ⟨_,TagInterior.advance?_plain slash sign.front (by simp [chars]) fun d member => ?_⟩
      have other := isMarkupSpace_other (sign.blank d (List.mem_append_left _ member))
      exact ⟨other.1,other.2.1⟩
  have back : ∀ chars : List Char, (∀ c ∈ chars, isMarkupSpace c = true) →
      TagInterior.value.advance? chars = some .value := by
    intro chars blank
    induction chars with
    | nil => rfl
    | cons c rest ih =>
      have here := blank c List.mem_cons_self
      have stays : TagInterior.value.next c = .value := by simp [TagInterior.next,here]
      rw [TagInterior.advance?_cons _ _ _ (by simp [TagInterior.endsAt,(isMarkupSpace_other here).1]),stays]
      exact ih fun d member => blank d (List.mem_cons_of_mem _ member)
  obtain ⟨last,passed⟩ := front
  rw [EqualsSign.render,TagInterior.advance?_append,passed,Option.bind_some,
    TagInterior.advance?_cons _ _ _ rfl]
  exact back sign.back fun c member => sign.blank c (List.mem_append_right _ member)

theorem RegularValue.advance?_render (value : RegularValue) :
    (TagInterior.plain false).advance? value.render = some (.plain value.slashed) := by
  cases value with
  | bare => rfl
  | unquoted sign chars nonempty written =>
    cases chars with
    | nil => contradiction
    | cons c rest =>
      obtain ⟨space,double,single,equals,bracket⟩ := written c List.mem_cons_self
      have stepped : TagInterior.next .value c = .plain (c = '/') := by
        simp [TagInterior.next,space,equals,double,single]
      rw [render,TagInterior.advance?_append,TagInterior.advance?_equals,Option.bind_some,
        TagInterior.advance?_cons _ _ _ (by simp [TagInterior.endsAt,bracket]),stepped]
      cases rest with
      | nil => simp [TagInterior.advance?,slashed]
      | cons d rest =>
        rw [TagInterior.advance?_plain _ _ (by simp)]
        · simp [slashed]
        · intro e member
          obtain ⟨_,_,_,equals,bracket⟩ := written e (List.mem_cons_of_mem _ member)
          exact ⟨bracket,equals⟩
  | quoted sign mark chars isMark inside =>
    rw [render,TagInterior.advance?_append,TagInterior.advance?_equals,Option.bind_some,
      TagInterior.advance?_value _ _ isMark inside]
    rfl

theorem RegularAttribute.advance?_render (attr : RegularAttribute) (slash : Bool) :
    (TagInterior.plain slash).advance? attr.render = some (.plain attr.value.slashed) := by
  have blank : ∀ c ∈ attr.space, c ≠ '>' ∧ c ≠ '=' := by
    intro c member
    have other := isMarkupSpace_other (attr.blank c member)
    exact ⟨other.1,other.2.1⟩
  rw [render,← List.append_assoc,TagInterior.advance?_append,
    TagInterior.advance?_name _ _ _ blank attr.nonempty attr.written,Option.bind_some,attr.value.advance?_render]

namespace RegularTag

theorem advance?_attributes (attributes : List RegularAttribute) :
    ∃ slash, (TagInterior.plain false).advance? (attributes.flatMap (·.render)) = some (.plain slash) ∧
      (slash = true → ∃ attr ∈ attributes, attr.value.slashed = true) := by
  induction attributes using List.reverseRecOn with
  | nil => exact ⟨false,rfl,by simp⟩
  | append_singleton attributes attr ih =>
    obtain ⟨slash,passed,_⟩ := ih
    refine ⟨attr.value.slashed,?_,fun slashed => ⟨attr,by simp,slashed⟩⟩
    rw [List.flatMap_append,TagInterior.advance?_append,passed,Option.bind_some,List.flatMap_singleton,
      attr.advance?_render]

theorem advance?_body (tag : RegularTag) :
    (TagInterior.plain false).advance? tag.body = some (.plain tag.slash) := by
  obtain ⟨last,passed,left⟩ := advance?_attributes tag.attributes
  have blank : ∀ c ∈ tag.space, c ≠ '>' ∧ c ≠ '=' ∧ c ≠ '/' := by
    intro c member
    have other := isMarkupSpace_other (tag.blank c member)
    exact ⟨other.1,other.2.1,other.2.2.1⟩
  rw [body,TagInterior.advance?_append,passed,Option.bind_some,TagInterior.advance?_end _ _ _ blank]
  intro nothing _
  rw [Bool.eq_false_iff]
  intro isSlash
  obtain ⟨attr,member,slashed⟩ := left isSlash
  have unquoted : attr.value.isUnquoted = true := by
    cases value : attr.value <;> simp [RegularValue.slashed,RegularValue.isUnquoted,value] at slashed ⊢
  rw [(tag.ended nothing attr member unquoted).2] at slashed
  contradiction

theorem head_inner (tag : RegularTag) : ∃ c more, tag.inner = c :: more ∧ endsName c = true := by
  have spaced (space : List Char) (blank : ∀ c ∈ space, isMarkupSpace c = true) (some_ : space ≠ [])
      (rest : List Char) : ∃ c more, space ++ rest = c :: more ∧ endsName c = true := by
    obtain ⟨c,more,rfl⟩ := List.exists_cons_of_ne_nil some_
    exact ⟨c,more ++ rest,rfl,endsName_of_isMarkupSpace (blank c List.mem_cons_self)⟩
  unfold inner body
  cases tag.attributes with
  | cons attr rest =>
    rw [List.flatMap_cons,RegularAttribute.render,List.append_assoc,List.append_assoc,List.append_assoc]
    exact spaced attr.space attr.blank attr.separated _
  | nil =>
    rw [List.flatMap_nil,List.nil_append,List.append_assoc]
    by_cases nothing : tag.space = []
    · rw [nothing,List.nil_append]
      cases tag.slash with
      | true => exact ⟨'/',['>'],rfl,rfl⟩
      | false => exact ⟨'>',[],rfl,rfl⟩
    · exact spaced tag.space tag.blank nothing _

theorem named_inner (tag : RegularTag) (rest : List Char) :
    ∀ c, (tag.inner ++ rest).head? = some c → isNameChar c = false := by
  intro c head
  obtain ⟨d,more,parts,ends⟩ := tag.head_inner
  rw [parts] at head
  obtain rfl := Option.some.inj head
  rw [Bool.eq_false_iff]
  intro named
  rw [continues_of_isNameChar named] at ends
  contradiction

theorem opens (tag : RegularTag) (after : List Char) : OpeningTag tag.name tag.inner after where
  letter := tag.letter
  written := tag.written
  named := tag.named_inner after
  ended := Or.inr ⟨tag.body,.plain tag.slash,rfl,tag.advance?_body,rfl⟩

theorem lexFrom_render (tag : RegularTag) (offset : Nat) (rest : List Char) :
    lexFrom .text offset (tag.render ++ rest) =
      ⟨.opening tag.slash,tag.label,offset,offset + byteLength tag.render,true⟩ ::
        lexFrom (LexPhase.afterOpening tag.label tag.slash) (offset + byteLength tag.render) rest := by
  have named := tag.named_inner rest
  rw [inner,List.append_assoc] at named
  have lexed := lexFrom_bracket_tag offset tag.name tag.body rest (.plain tag.slash) tag.letter tag.written named
    tag.advance?_body rfl
  have bracket : LexPhase.step .text offset '<' = (.bracket offset,none) := rfl
  rw [render,List.cons_append,lexFrom,bracket]
  dsimp only
  rw [inner,List.append_assoc,List.append_assoc]
  exact lexed

end RegularTag

/-- A text that ends an attribute before it: white space, a slash after the attribute if its value has quotes
or there is none, or a bracket. What comes after the white space does not go on with an equals sign. -/
def EndsAttribute (unquoted : Bool) (rest : List Char) : Prop :=
  ∃ space more, rest = space ++ more ∧ (∀ c ∈ space, isMarkupSpace c = true) ∧
    (∀ c, more.head? = some c → isMarkupSpace c = false ∧ c ≠ '=') ∧
    (space = [] → ∀ c, more.head? = some c → c = '>' ∨ (c = '/' ∧ unquoted = false))

namespace AttributePhase

theorem step_gap_space (offset : Nat) (c : Char) (space : isMarkupSpace c = true) :
    step .gap offset c = (.gap,none) := by
  have bracket := (isMarkupSpace_other space).1
  simp [step,readGap,bracket,endsName_of_isMarkupSpace space]

theorem read_afterName (name : WrittenName) (offset : Nat) (space rest : List Char)
    (blank : ∀ c ∈ space, isMarkupSpace c = true)
    (other : ∀ c, rest.head? = some c → isMarkupSpace c = false ∧ c ≠ '=') :
    readAttributesFrom (.afterName name) offset (space ++ rest) =
      name.bare :: readAttributesFrom .gap offset (space ++ rest) := by
  induction space generalizing offset with
  | nil =>
    cases rest with
    | nil => rfl
    | cons c rest =>
      obtain ⟨space,equals⟩ := other c rfl
      rw [List.nil_append,readAttributesFrom_cons,readAttributesFrom_cons]
      simp [step,space,equals]
  | cons c space ih =>
    have here := blank c List.mem_cons_self
    have stepped : step (.afterName name) offset c = (.afterName name,none) := by
      simp [step,here]
    rw [List.cons_append,readAttributesFrom_cons,readAttributesFrom_cons,step_gap_space _ _ here,stepped,
      ih _ fun d member => blank d (List.mem_cons_of_mem _ member)]
    rfl

theorem read_gap_space (offset : Nat) (space rest : List Char)
    (blank : ∀ c ∈ space, isMarkupSpace c = true) :
    readAttributesFrom .gap offset (space ++ rest) =
      readAttributesFrom .gap (offset + byteLength space) rest := by
  induction space generalizing offset with
  | nil => rfl
  | cons c space ih =>
    rw [List.cons_append,readAttributesFrom_cons,step_gap_space _ _ (blank c List.mem_cons_self),
      ih _ fun d member => blank d (List.mem_cons_of_mem _ member),byteLength_cons,Nat.add_assoc]
    rfl

theorem read_naming_bare (start offset : Nat) (chars rest : List Char)
    (ended : EndsAttribute false rest) :
    readAttributesFrom (.naming start chars) offset rest =
      (WrittenName.ofReversed start offset chars).bare :: readAttributesFrom .gap offset rest := by
  obtain ⟨space,more,rfl,blank,other,close⟩ := ended
  cases space with
  | nil =>
    cases more with
    | nil => rfl
    | cons c more =>
      obtain ⟨space,equals⟩ := other c rfl
      have ends : endsName c = true := by
        rcases close rfl c rfl with rfl | ⟨rfl,_⟩ <;> rfl
      rw [List.nil_append,readAttributesFrom_cons,readAttributesFrom_cons]
      simp [step,space,equals,ends]
  | cons c space =>
    have here := blank c List.mem_cons_self
    have stepped : step (.naming start chars) offset c =
        (.afterName (WrittenName.ofReversed start offset chars),none) := by
      simp [step,here]
    rw [List.cons_append,readAttributesFrom_cons,readAttributesFrom_cons,step_gap_space _ _ here,stepped,
      read_afterName _ _ _ _ (fun d member => blank d (List.mem_cons_of_mem _ member)) other]
    rfl

theorem step_naming_equals (start offset : Nat) (chars : List Char) :
    step (.naming start chars) offset '=' =
      (.afterEquals (WrittenName.ofReversed start offset chars),none) := rfl

theorem read_afterEquals_space (name : WrittenName) (offset : Nat) (space rest : List Char)
    (blank : ∀ c ∈ space, isMarkupSpace c = true) :
    readAttributesFrom (.afterEquals name) offset (space ++ rest) =
      readAttributesFrom (.afterEquals name) (offset + byteLength space) rest := by
  induction space generalizing offset with
  | nil => rfl
  | cons c space ih =>
    have stepped : step (.afterEquals name) offset c = (.afterEquals name,none) := by
      simp [step,blank c List.mem_cons_self]
    rw [List.cons_append,readAttributesFrom_cons,stepped,
      ih _ fun d member => blank d (List.mem_cons_of_mem _ member),byteLength_cons,Nat.add_assoc]
    rfl

theorem read_afterName_equals (name : WrittenName) (offset : Nat) (space rest : List Char)
    (blank : ∀ c ∈ space, isMarkupSpace c = true) :
    readAttributesFrom (.afterName name) offset (space ++ '=' :: rest) =
      readAttributesFrom (.afterEquals name) (offset + byteLength space + 1) rest := by
  induction space generalizing offset with
  | nil => rfl
  | cons c space ih =>
    have stepped : step (.afterName name) offset c = (.afterName name,none) := by
      simp [step,blank c List.mem_cons_self]
    rw [List.cons_append,readAttributesFrom_cons,stepped,
      ih _ fun d member => blank d (List.mem_cons_of_mem _ member),byteLength_cons,Nat.add_assoc offset]
    rfl

theorem read_equals (start offset : Nat) (chars : List Char) (sign : EqualsSign) (rest : List Char) :
    readAttributesFrom (.naming start chars) offset (sign.render ++ rest) =
      readAttributesFrom (.afterEquals (WrittenName.ofReversed start offset chars))
        (offset + byteLength sign.render) rest := by
  have front (c : Char) (member : c ∈ sign.front) := sign.blank c (List.mem_append_left _ member)
  have back (c : Char) (member : c ∈ sign.back) := sign.blank c (List.mem_append_right _ member)
  have whole : sign.render ++ rest = sign.front ++ '=' :: (sign.back ++ rest) := by simp [EqualsSign.render]
  have size : offset + byteLength sign.render = offset + byteLength sign.front + 1 + byteLength sign.back := by
    rw [EqualsSign.render,byteLength_append,byteLength_cons]
    grind
  rw [whole,size]
  cases chars' : sign.front with
  | nil =>
    rw [List.nil_append,readAttributesFrom_cons,step_naming_equals,← read_afterEquals_space _ _ _ _ back]
    rfl
  | cons c space =>
    rw [chars'] at front
    have here := front c List.mem_cons_self
    have stepped : step (.naming start chars) offset c =
        (.afterName (WrittenName.ofReversed start offset chars),none) := by
      simp [step,here]
    rw [List.cons_append,readAttributesFrom_cons,stepped,
      read_afterName_equals _ _ _ _ fun d member => front d (List.mem_cons_of_mem _ member),
      ← read_afterEquals_space _ _ _ _ back,byteLength_cons,Nat.add_assoc offset]
    rfl

theorem read_value (name : WrittenName) (offset : Nat) (mark : Char) (chars rest : List Char)
    (isMark : mark = '"' ∨ mark = '\'') (inside : ∀ c ∈ chars, c ≠ mark) :
    readAttributesFrom (.afterEquals name) offset (mark :: (chars ++ mark :: rest)) =
      name.withValue (quoteOf mark) chars.reverse ⟨offset + 1,offset + 1 + byteLength chars⟩
          (offset + 1 + byteLength chars + 1) ::
        readAttributesFrom .gap (offset + 1 + byteLength chars + 1) rest := by
  have size := utf8Size_of_isMark isMark
  have first : step (.afterEquals name) offset mark = (.quoted name mark (offset + 1) [],none) := by
    rcases isMark with rfl | rfl <;> rfl
  have last (start stop : Nat) (read : List Char) : step (.quoted name mark start read) stop mark =
      (.gap,some (name.withValue (quoteOf mark) read ⟨start,stop⟩ (stop + 1))) := by
    simp [step]
  rw [readAttributesFrom_cons,first,readAttributesFrom_append,run_quoted _ _ _ _ _ _ inside,
    readAttributesFrom_cons,last]
  simp [size]

theorem read_unquotedValue (name : WrittenName) (offset : Nat) (chars rest : List Char) (nonempty : chars ≠ [])
    (written : ∀ c ∈ chars, isMarkupSpace c = false ∧ c ≠ '"' ∧ c ≠ '\'' ∧ c ≠ '=' ∧ c ≠ '>')
    (ended : EndsAttribute true rest) :
    readAttributesFrom (.afterEquals name) offset (chars ++ rest) =
      name.withValue .unquoted chars.reverse ⟨offset,offset + byteLength chars⟩ (offset + byteLength chars) ::
        readAttributesFrom .gap (offset + byteLength chars) rest := by
  obtain ⟨c,more,rfl⟩ := List.exists_cons_of_ne_nil nonempty
  obtain ⟨space,double,single,_,bracket⟩ := written c List.mem_cons_self
  have first : step (.afterEquals name) offset c = (.unquoted name offset [c],none) := by
    simp [step,space,bracket,double,single]
  have inside : ∀ d ∈ more, d ≠ '>' ∧ isMarkupSpace d = false := by
    intro d member
    obtain ⟨space,_,_,_,bracket⟩ := written d (List.mem_cons_of_mem _ member)
    exact ⟨bracket,space⟩
  rw [List.cons_append,readAttributesFrom_cons,first,readAttributesFrom_append,run_unquoted _ _ _ _ _ inside]
  simp only [Option.toList_none,List.nil_append,List.reverse_cons,byteLength_cons,Nat.add_assoc]
  generalize offset + (c.utf8Size + byteLength more) = stop
  obtain ⟨gap,later,rfl,blank,other,close⟩ := ended
  cases gap with
  | nil =>
    cases later with
    | nil => rfl
    | cons d later =>
      obtain rfl : d = '>' := by simpa using close rfl d rfl
      rw [List.nil_append,readAttributesFrom_cons,readAttributesFrom_cons]
      simp [step,readGap]
  | cons d gap =>
    have here := blank d List.mem_cons_self
    have ends : d ≠ '>' := (isMarkupSpace_other here).1
    rw [List.cons_append,readAttributesFrom_cons,readAttributesFrom_cons,step_gap_space _ _ here]
    simp [step,here,ends]

end AttributePhase

namespace RegularAttribute

theorem read_render (attr : RegularAttribute) (offset : Nat) (rest : List Char)
    (ended : EndsAttribute attr.value.isUnquoted rest) :
    readAttributesFrom .gap offset (attr.render ++ rest) =
      attr.place offset :: readAttributesFrom .gap (offset + byteLength attr.render) rest := by
  have named := AttributePhase.run_gap_chars (offset + byteLength attr.space) attr.name attr.nonempty attr.written
  rw [render,List.append_assoc,List.append_assoc,AttributePhase.read_gap_space _ _ _ attr.blank,
    readAttributesFrom_append,named,List.nil_append,place]
  cases value : attr.value with
  | bare =>
    rw [value] at ended
    rw [RegularValue.render,List.nil_append,AttributePhase.read_naming_bare _ _ _ _ ended]
    simp [WrittenName.ofReversed,label,Nat.add_assoc]
  | unquoted sign chars nonempty written =>
    rw [value] at ended
    rw [RegularValue.render,List.append_assoc,AttributePhase.read_equals,
      AttributePhase.read_unquotedValue _ _ _ _ nonempty written ended]
    simp [WrittenName.ofReversed,label,Nat.add_assoc]
  | quoted sign mark chars isMark inside =>
    have parts : RegularValue.render (.quoted sign mark chars isMark inside) ++ rest =
        sign.render ++ mark :: (chars ++ mark :: rest) := by
      simp [RegularValue.render]
    have size := AttributePhase.utf8Size_of_isMark isMark
    rw [parts,AttributePhase.read_equals,AttributePhase.read_value _ _ _ _ _ isMark inside]
    simp [WrittenName.ofReversed,label,RegularValue.render,size,Nat.add_assoc]

theorem endsAttribute (attr : RegularAttribute) (unquoted : Bool) (rest : List Char) :
    EndsAttribute unquoted (attr.render ++ rest) := by
  refine ⟨attr.space,attr.name ++ (attr.value.render ++ rest),by simp [render],attr.blank,?_,
    fun nothing => absurd nothing attr.separated⟩
  intro c head
  have named : c ∈ attr.name := by
    obtain ⟨d,more,chars⟩ := List.exists_cons_of_ne_nil attr.nonempty
    rw [chars] at head ⊢
    obtain rfl := Option.some.inj head
    exact List.mem_cons_self
  obtain ⟨continues,equals⟩ := attr.written c named
  exact ⟨isMarkupSpace_of_continues continues,equals⟩

theorem read_all (attributes : List RegularAttribute) (offset : Nat) (rest : List Char)
    (ended : ∀ attr ∈ attributes, EndsAttribute attr.value.isUnquoted rest) :
    readAttributesFrom .gap offset (attributes.flatMap (·.render) ++ rest) =
      placeAll attributes offset ++
        readAttributesFrom .gap (offset + byteLength (attributes.flatMap (·.render))) rest := by
  induction attributes generalizing offset with
  | nil => rfl
  | cons attr more ih =>
    have follows : EndsAttribute attr.value.isUnquoted (more.flatMap (·.render) ++ rest) := by
      cases more with
      | nil => exact ended attr List.mem_cons_self
      | cons next more =>
        rw [List.flatMap_cons,List.append_assoc]
        exact next.endsAttribute _ _
    rw [List.flatMap_cons,List.append_assoc,attr.read_render _ _ follows,
      ih _ fun other member => ended other (List.mem_cons_of_mem _ member),placeAll,byteLength_append,
      Nat.add_assoc]
    rfl

theorem placeAll_append (first second : List RegularAttribute) (offset : Nat) :
    placeAll (first ++ second) offset =
      placeAll first offset ++ placeAll second (offset + byteLength (first.flatMap (·.render))) := by
  induction first generalizing offset with
  | nil => rfl
  | cons attr first ih =>
    rw [List.cons_append,placeAll,ih,placeAll,List.flatMap_cons,byteLength_append,Nat.add_assoc]
    rfl

@[simp] theorem place_range (attr : RegularAttribute) (offset : Nat) :
    (attr.place offset).range = ⟨offset + byteLength attr.space,offset + byteLength attr.render⟩ := by
  unfold place render
  cases value : attr.value with
  | bare => simp [WrittenName.bare,RegularValue.render,Nat.add_assoc]
  | unquoted sign chars nonempty written =>
    simp [WrittenName.withValue,RegularValue.render,Nat.add_assoc]
  | quoted sign mark chars isMark inside =>
    have size := AttributePhase.utf8Size_of_isMark isMark
    simp [WrittenName.withValue,RegularValue.render,size,Nat.add_assoc]

theorem render_last (attr : RegularAttribute) :
    ∃ front c, attr.render = front ++ [c] ∧ isMarkupSpace c = false := by
  cases value : attr.value with
  | bare =>
    refine ⟨attr.space ++ attr.name.dropLast,attr.name.getLast attr.nonempty,?_,?_⟩
    · rw [render,value,RegularValue.render,List.append_nil,List.append_assoc,
        List.dropLast_concat_getLast attr.nonempty]
    · exact isMarkupSpace_of_continues (attr.written _ (List.getLast_mem attr.nonempty)).1
  | unquoted sign chars nonempty written =>
    refine ⟨attr.space ++ (attr.name ++ (sign.render ++ chars.dropLast)),chars.getLast nonempty,?_,?_⟩
    · simp [render,value,RegularValue.render,List.dropLast_concat_getLast nonempty]
    · exact (written _ (List.getLast_mem nonempty)).1
  | quoted sign mark chars isMark inside =>
    refine ⟨attr.space ++ (attr.name ++ (sign.render ++ mark :: chars)),mark,?_,?_⟩
    · simp [render,value,RegularValue.render]
    · rcases isMark with rfl | rfl <;> rfl

@[simp] theorem place_content (attr : RegularAttribute) (offset : Nat) : (attr.place offset).content = attr.content := by
  unfold content place
  cases attr.value <;> rfl

@[simp] theorem content_name (attr : RegularAttribute) : attr.content.name = attr.label := by
  unfold content place
  cases attr.value <;> rfl

@[simp] theorem place_label (attr : RegularAttribute) (offset : Nat) : (attr.place offset).name = attr.label :=
  (congrArg Attribute.Content.name (attr.place_content offset)).trans attr.content_name

theorem placeAll_content (attributes : List RegularAttribute) (offset : Nat) :
    (placeAll attributes offset).map Attribute.content = attributes.map content := by
  induction attributes generalizing offset with
  | nil => rfl
  | cons attr rest ih => rw [placeAll,List.map_cons,List.map_cons,place_content,ih]

end RegularAttribute

namespace RegularTag

def tail (tag : RegularTag) : List Char := tag.space ++ ((if tag.slash then ['/'] else []) ++ ['>'])

theorem inner_eq (tag : RegularTag) : tag.inner = tag.attributes.flatMap (·.render) ++ tag.tail := by
  simp [inner,body,tail]

theorem endsAttribute_tail (tag : RegularTag) (attr : RegularAttribute) (member : attr ∈ tag.attributes) :
    EndsAttribute attr.value.isUnquoted tag.tail := by
  refine ⟨tag.space,_,rfl,tag.blank,fun c head => ?_,fun nothing c head => ?_⟩
  · cases slash : tag.slash <;> rw [slash] at head <;> obtain rfl := Option.some.inj head <;> decide
  · cases slash : tag.slash with
    | false =>
      rw [slash] at head
      exact Or.inl (Option.some.inj head).symm
    | true =>
      rw [slash] at head
      refine Or.inr ⟨(Option.some.inj head).symm,?_⟩
      rw [Bool.eq_false_iff]
      intro unquoted
      have open_ := (tag.ended nothing attr member unquoted).1
      rw [slash] at open_
      contradiction

theorem read_tail (tag : RegularTag) (offset : Nat) : readAttributesFrom .gap offset tag.tail = [] := by
  rw [tail,AttributePhase.read_gap_space _ _ _ tag.blank]
  cases tag.slash <;> rfl

theorem readAttributes_inner (tag : RegularTag) (offset : Nat) :
    readAttributesFrom .tagName offset tag.inner = RegularAttribute.placeAll tag.attributes offset := by
  have gap : readAttributesFrom .tagName offset tag.inner = readAttributesFrom .gap offset tag.inner := by
    obtain ⟨c,more,parts,ends⟩ := tag.head_inner
    refine readAttributesFrom_nameEnd offset tag.inner fun d head => ?_
    rw [parts] at head
    rwa [← Option.some.inj head]
  rw [gap,inner_eq,RegularAttribute.read_all _ _ _ tag.endsAttribute_tail,read_tail,List.append_nil]

theorem readAttributes_render (tag : RegularTag) (base : Nat) :
    readAttributes tag.render base = RegularAttribute.placeAll tag.attributes (base + 1 + byteLength tag.name) := by
  have opened : AttributePhase.step .outside base '<' = (.tagName,none) := rfl
  rw [readAttributes,render,readAttributesFrom_cons,opened,readAttributesFrom_name _ _ _ tag.written,
    tag.readAttributes_inner]
  rfl

end RegularTag

end AccessibleMarkup.Markup
