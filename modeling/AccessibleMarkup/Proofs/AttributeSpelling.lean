import AccessibleMarkup.Proofs.AttributePlaces

/-! How attributes are written. The range of every attribute that is read holds its name, followed by
nothing or by an equals sign, with blanks around it, and the value with its quotation marks. So from the
characters in the range it can be told how the attribute was read. -/
namespace AccessibleMarkup.Markup

open Text

def IsWrittenName (name : List Char) : Prop := name ≠ [] ∧ ∀ c ∈ name, endsName c = false ∧ c ≠ '='

/-- The characters of an attribute with a name, by the quotation marks and the value it is read with. -/
inductive Spelling (name : List Char) : Quote → List Char → List Char → Prop
  | bare : Spelling name .bare [] name
  | unquoted (front back value : List Char) (blank : ∀ c ∈ front ++ back, isMarkupSpace c = true)
      (open_ : ∀ c, value.head? = some c → c ≠ '"' ∧ c ≠ '\'') :
      Spelling name .unquoted value (name ++ (front ++ '=' :: (back ++ value)))
  | quoted (mark : Char) (front back value tail : List Char)
      (blank : ∀ c ∈ front ++ back, isMarkupSpace c = true) (isMark : mark = '"' ∨ mark = '\'')
      (inside : mark ∉ value) (closed : tail = [] ∨ tail = [mark]) :
      Spelling name (AttributePhase.quoteOf mark) value
        (name ++ (front ++ '=' :: (back ++ mark :: (value ++ tail))))

/-- An attribute that is written in its range as it is read. -/
structure Attribute.SpeltIn (base : Nat) (text : List Char) (attr : Attribute) : Prop where
  named : IsWrittenName attr.name.toList
  spelt : ∃ chars, Holds base text attr.range chars ∧
    Spelling attr.name.toList attr.quote attr.value.toList chars

theorem Attribute.SpeltIn.append {base : Nat} {text : List Char} {attr : Attribute}
    (spelt : attr.SpeltIn base text) (more : List Char) : attr.SpeltIn base (text ++ more) := by
  obtain ⟨named,chars,holds,spelling⟩ := spelt
  exact ⟨named,chars,holds.append more,spelling⟩

variable {base : Nat} {read : List Char}

namespace WrittenName

/-- The characters read end with the name and what came since. -/
structure Since (base : Nat) (read : List Char) (name : WrittenName) (since : List Char) : Prop where
  named : IsWrittenName name.name.toList
  parts : ∃ first, read = first ++ (name.name.toList ++ since) ∧ name.range.start = base + byteLength first
  stop : name.range.stop = name.range.start + byteLength name.name.toList

variable {name : WrittenName} {since : List Char}

theorem Since.snoc (written : name.Since base read since) (c : Char) :
    name.Since base (read ++ [c]) (since ++ [c]) := by
  obtain ⟨named,⟨first,rfl,start⟩,stop⟩ := written
  exact ⟨named,⟨first,by simp,start⟩,stop⟩

theorem Since.bare (written : name.Since base read since) : name.bare.SpeltIn base read := by
  obtain ⟨named,⟨first,rfl,start⟩,stop⟩ := written
  exact ⟨named,name.name.toList,⟨first,since,rfl,start,stop⟩,.bare⟩

theorem Since.withValue (written : name.Since base read since) (quote : Quote) (chars : List Char)
    (value : ByteRange) (stop : Nat) (ended : stop = base + byteLength read)
    (spelling : Spelling name.name.toList quote chars.reverse (name.name.toList ++ since)) :
    (name.withValue quote chars value stop).SpeltIn base read := by
  obtain ⟨named,⟨first,rfl,start⟩,_⟩ := written
  refine ⟨named,name.name.toList ++ since,⟨first,[],by simp,start,?_⟩,
    by simpa [WrittenName.withValue] using spelling⟩
  simp only [WrittenName.withValue,byteLength_append] at ended ⊢
  omega

theorem Since.holds (written : name.Since base read since) : Holds base read name.range name.name.toList := by
  obtain ⟨_,⟨first,parts,start⟩,stop⟩ := written
  exact ⟨first,since,parts,start,stop⟩

theorem Since.length (written : name.Since base read since) :
    name.range.stop + byteLength since = base + byteLength read := by
  obtain ⟨_,⟨first,rfl,start⟩,stop⟩ := written
  grind

end WrittenName

namespace AttributePhase

variable {c : Char} {phase next : AttributePhase} {given : Option Attribute} {attr : Attribute} {name : WrittenName}

def Spelt (base : Nat) (read : List Char) : AttributePhase → Prop
  | .naming start chars => IsWrittenName chars.reverse ∧
      ∃ first, read = first ++ chars.reverse ∧ start = base + byteLength first
  | .afterName name => ∃ front, name.Since base read front ∧ ∀ c ∈ front, isMarkupSpace c = true
  | .afterEquals name => ∃ front back, name.Since base read (front ++ '=' :: back) ∧
      ∀ c ∈ front ++ back, isMarkupSpace c = true
  | .unquoted name _ chars => ∃ front back,
      name.Since base read (front ++ '=' :: (back ++ chars.reverse)) ∧
        (∀ c ∈ front ++ back, isMarkupSpace c = true) ∧ chars ≠ [] ∧
        ∀ c, chars.reverse.head? = some c → c ≠ '"' ∧ c ≠ '\''
  | .quoted name mark _ chars => ∃ front back,
      name.Since base read (front ++ '=' :: (back ++ mark :: chars.reverse)) ∧
        (∀ c ∈ front ++ back, isMarkupSpace c = true) ∧ (mark = '"' ∨ mark = '\'') ∧ mark ∉ chars
  | _ => True

theorem spelt_readGap (base : Nat) (read : List Char) (c : Char) :
    (readGap (base + byteLength read) c).Spelt base (read ++ [c]) := by
  unfold readGap
  split_ifs with bracket ends
  · trivial
  · trivial
  · rw [Bool.or_eq_true,not_or,decide_eq_true_eq,Bool.not_eq_true] at ends
    exact ⟨⟨by simp,by simpa using ends⟩,read,rfl,rfl⟩

theorem quoteOf_ne_bare (mark : Char) : quoteOf mark ≠ .bare := by
  unfold quoteOf
  split_ifs <;> simp

theorem blank_snoc {chars : List Char} (blank : ∀ d ∈ chars, isMarkupSpace d = true)
    (space : isMarkupSpace c = true) : ∀ d ∈ chars ++ [c], isMarkupSpace d = true := by
  intro d member
  rcases List.mem_append.mp member with before | last
  · exact blank d before
  · rwa [List.mem_singleton.mp last]

theorem since_naming {start : Nat} {chars : List Char} (spelt : (naming start chars).Spelt base read) :
    (WrittenName.ofReversed start (base + byteLength read) chars).Since base read [] := by
  obtain ⟨named,first,rfl,rfl⟩ := spelt
  refine ⟨by simpa [WrittenName.ofReversed] using named,⟨first,by simp [WrittenName.ofReversed],rfl⟩,?_⟩
  simp [WrittenName.ofReversed,Nat.add_assoc]

/-- After a name that has been read only blanks have come. -/
theorem Spelt.nameAt (spelt : phase.Spelt base read) (named : NameAt (base + byteLength read) phase name) :
    ∃ front, name.Since base read front ∧ ∀ c ∈ front, isMarkupSpace c = true := by
  cases named with
  | afterName => exact spelt
  | naming => exact ⟨[],since_naming spelt,by simp⟩

theorem Turn.spelt (turn : Turn (base + byteLength read) c phase next given) (spelt : phase.Spelt base read) :
    next.Spelt base (read ++ [c]) := by
  cases turn with
  | tagName | dangling | quoteEnd | done => trivial
  | tagNameEnd | gap | bare => exact spelt_readGap base read c
  | letter start chars continues unequal =>
    obtain ⟨⟨_,letters⟩,first,rfl,rfl⟩ := spelt
    refine ⟨⟨by simp,fun d member => ?_⟩,first,by simp,rfl⟩
    rw [List.reverse_cons,List.mem_append,List.mem_singleton] at member
    rcases member with before | rfl
    · exact letters d before
    · exact ⟨continues,unequal⟩
  | pause named space =>
    obtain ⟨front,written,blank⟩ := spelt.nameAt named
    exact ⟨_,written.snoc c,blank_snoc blank space⟩
  | equals named sign =>
    subst sign
    obtain ⟨front,written,blank⟩ := spelt.nameAt named
    exact ⟨front,[],written.snoc '=',by simpa using blank⟩
  | valuePause name space =>
    obtain ⟨front,back,written,blank⟩ := spelt
    refine ⟨front,back ++ [c],by simpa using written.snoc c,?_⟩
    rw [← List.append_assoc]
    exact blank_snoc blank space
  | mark name isMark =>
    obtain ⟨front,back,written,blank⟩ := spelt
    exact ⟨front,back,by simpa using written.snoc c,blank,isMark,by simp⟩
  | valueStart name _ unmarked =>
    obtain ⟨front,back,written,blank⟩ := spelt
    refine ⟨front,back,by simpa using written.snoc c,blank,by simp,?_⟩
    rintro d ⟨rfl⟩
    exact unmarked
  | valueEnd _ _ _ ended => rcases ended with ⟨rfl,_⟩ | ⟨rfl,_⟩ <;> trivial
  | valueChar name start chars =>
    obtain ⟨front,back,written,blank,nonempty,open_⟩ := spelt
    refine ⟨front,back,by simpa using written.snoc c,blank,by simp,fun d head => open_ d ?_⟩
    rwa [List.reverse_cons,List.head?_append,Option.or_of_isSome (by simpa using nonempty)] at head
  | quoteChar name mark start chars other =>
    obtain ⟨front,back,written,blank,isMark,inside⟩ := spelt
    refine ⟨front,back,by simpa using written.snoc c,blank,isMark,?_⟩
    rw [List.mem_cons,not_or]
    exact ⟨other.symm,inside⟩

theorem Turn.speltIn (turn : Turn (base + byteLength read) c phase next (some attr))
    (spelt : phase.Spelt base read) : attr.SpeltIn base (read ++ [c]) := by
  cases turn with
  | bare named =>
    obtain ⟨front,written,_⟩ := spelt.nameAt named
    exact written.bare.append [c]
  | dangling name =>
    obtain ⟨front,back,written,blank⟩ := spelt
    refine (written.withValue .unquoted [] _ _ rfl ?_).append [c]
    simpa using Spelling.unquoted front back [] blank (by simp)
  | valueEnd name start chars =>
    obtain ⟨front,back,written,blank,_,open_⟩ := spelt
    exact (written.withValue .unquoted chars _ _ rfl
      (.unquoted front back chars.reverse blank open_)).append [c]
  | quoteEnd name start chars =>
    obtain ⟨front,back,written,blank,isMark,inside⟩ := spelt
    have further := written.snoc c
    simp only [List.append_assoc,List.cons_append] at further
    have one := utf8Size_of_isMark isMark
    exact further.withValue (quoteOf c) chars _ _ (by simp [one,Nat.add_assoc])
      (.quoted c front back chars.reverse [c] blank isMark (by simpa using inside) (Or.inr rfl))

theorem Spelt.finish {phase : AttributePhase} (spelt : phase.Spelt base read) (attr : Attribute)
    (found : phase.finish (base + byteLength read) = some attr) : attr.SpeltIn base read := by
  cases phase <;> simp only [AttributePhase.finish,reduceCtorEq] at found
  case naming start chars =>
    obtain rfl := Option.some.inj found
    exact (since_naming spelt).bare
  case afterName name =>
    obtain rfl := Option.some.inj found
    obtain ⟨front,written,_⟩ := spelt
    exact written.bare
  case afterEquals name =>
    obtain rfl := Option.some.inj found
    obtain ⟨front,back,written,blank⟩ := spelt
    refine written.withValue .unquoted [] _ _ rfl ?_
    simpa using Spelling.unquoted front back [] blank (by simp)
  case unquoted name start chars =>
    obtain rfl := Option.some.inj found
    obtain ⟨front,back,written,blank,_,open_⟩ := spelt
    exact written.withValue .unquoted chars _ _ rfl (.unquoted front back chars.reverse blank open_)
  case quoted name mark start chars =>
    obtain rfl := Option.some.inj found
    obtain ⟨front,back,written,blank,isMark,inside⟩ := spelt
    refine written.withValue (quoteOf mark) chars _ _ rfl ?_
    simpa using Spelling.quoted mark front back chars.reverse [] blank isMark (by simpa using inside) (Or.inl rfl)

end AttributePhase

theorem readAttributesFrom_speltIn (phase : AttributePhase) (read text : List Char)
    (spelt : phase.Spelt base read) (attr : Attribute)
    (member : attr ∈ readAttributesFrom phase (base + byteLength read) text) :
    attr.SpeltIn base (read ++ text) :=
  readAttributesFrom_forall (fun read phase => phase.Spelt base read) _ (fun turn spelt => turn.spelt spelt)
    (fun turn spelt more => (turn.speltIn spelt).append more) (fun spelt found => spelt.finish _ found)
    phase read text spelt attr member

namespace Spelling

variable {name value chars : List Char} {quote : Quote}

theorem byteLength_le (spelling : Spelling name quote value chars) : byteLength name ≤ byteLength chars := by
  cases spelling with
  | bare => exact Nat.le_refl _
  | unquoted =>
    rw [byteLength_append]
    exact Nat.le_add_right _ _
  | quoted =>
    rw [byteLength_append]
    exact Nat.le_add_right _ _

theorem byteLength_pos (spelling : Spelling name quote value chars) (nonempty : name ≠ []) : 0 < byteLength chars :=
  Nat.lt_of_lt_of_le (Text.byteLength_pos nonempty) spelling.byteLength_le

theorem value_of_bare (spelling : Spelling name quote value chars) (bare : quote = .bare) : value = [] := by
  cases spelling with
  | bare => rfl
  | unquoted => contradiction
  | quoted mark => exact absurd bare (AttributePhase.quoteOf_ne_bare mark)

end Spelling

theorem Spelling.of_doubleQuoted {name value body chars : List Char} {quote : Quote}
    (spelling : Spelling name quote value chars)
    (same : chars = name ++ '=' :: '"' :: (body ++ ['"'])) : quote = .double ∧ value = body := by
  have tight {front rest : List Char} (blank : ∀ c ∈ front, isMarkupSpace c = true)
      {c : Char} {after : List Char} (shown : isMarkupSpace c = false) (equal : front ++ rest = c :: after) :
      front = [] := by
    cases front with
    | nil => rfl
    | cons d front =>
      have space := blank d List.mem_cons_self
      rw [(List.cons.inj equal).1,shown] at space
      contradiction
  cases spelling with
  | bare => simp at same
  | unquoted front back value blank open_ =>
    rw [List.append_right_inj] at same
    obtain rfl := tight (fun c member => blank c (List.mem_append_left _ member)) (by decide) same
    obtain ⟨_,same⟩ := List.cons.inj same
    obtain rfl := tight (fun c member => blank c (List.mem_append_right _ member)) (by decide) same
    rw [List.nil_append] at same
    exact absurd rfl (open_ '"' (by rw [same]; rfl)).1
  | quoted mark front back value tail blank isMark inside closed =>
    rw [List.append_right_inj] at same
    obtain rfl := tight (fun c member => blank c (List.mem_append_left _ member)) (by decide) same
    obtain ⟨_,same⟩ := List.cons.inj same
    obtain rfl := tight (fun c member => blank c (List.mem_append_right _ member)) (by decide) same
    obtain ⟨rfl,rest⟩ := List.cons.inj same
    rcases closed with rfl | rfl
    · rw [List.append_nil] at rest
      exact absurd (by rw [rest]; simp) inside
    · exact ⟨rfl,List.append_cancel_right rest⟩

end AccessibleMarkup.Markup
