import AccessibleMarkup.Markup.Attribute
import AccessibleMarkup.Text.Blank

/-! Reading the attributes of an opening tag, one character at a time. The tag may be cut off
anywhere; reading stops at the first angle bracket that is not part of a value. -/
namespace AccessibleMarkup.Markup

/-- A name and its place. -/
structure WrittenName where
  name : String
  range : ByteRange
  deriving DecidableEq, Repr

/-- What the reader is in the middle of. Unfinished names and values are kept with their last
character first. -/
inductive AttributePhase where
  /-- Before the tag, where an angle bracket may come. -/
  | outside
  /-- In the name of the tag. -/
  | tagName
  /-- Between attributes. -/
  | gap
  | naming (start : Nat) (chars : List Char)
  | afterName (name : WrittenName)
  | afterEquals (name : WrittenName)
  | unquoted (name : WrittenName) (start : Nat) (chars : List Char)
  | quoted (name : WrittenName) (mark : Char) (start : Nat) (chars : List Char)
  /-- After the end of the tag. -/
  | done
  deriving DecidableEq, Repr

def endsName (c : Char) : Bool :=
  Text.isMarkupSpace c || c = '>' || c = '/' || c = '"' || c = '\''

namespace WrittenName

def ofReversed (start stop : Nat) (chars : List Char) : WrittenName :=
  ⟨String.ofList chars.reverse, ⟨start, stop⟩⟩

def bare (name : WrittenName) : Attribute :=
  ⟨name.name, "", .bare, name.range, name.range, none⟩

/-- The attribute with a value, from its last character on, that ends at `stop` with its quotes. -/
def withValue (name : WrittenName) (quote : Quote) (chars : List Char) (value : ByteRange)
    (stop : Nat) : Attribute :=
  ⟨name.name, String.ofList chars.reverse, quote, ⟨name.range.start, stop⟩, name.range,
    some value⟩

end WrittenName

namespace AttributePhase

/-- The way of quoting that a quotation mark stands for. -/
def quoteOf (mark : Char) : Quote := if mark = '"' then .double else .single

/-- A character between attributes. A quote or an equals sign without a name is passed over. -/
def readGap (offset : Nat) (c : Char) : AttributePhase :=
  if c = '>' then .done
  else if endsName c || c = '=' then .gap
  else .naming offset [c]

def readTagName (offset : Nat) (c : Char) : AttributePhase :=
  if endsName c then readGap offset c else .tagName

def step (phase : AttributePhase) (offset : Nat) (c : Char) : AttributePhase × Option Attribute :=
  match phase with
  | .outside => (if c = '<' then .tagName else readTagName offset c, none)
  | .tagName => (readTagName offset c, none)
  | .gap => (readGap offset c, none)
  | .naming start chars =>
    let written := WrittenName.ofReversed start offset chars
    if Text.isMarkupSpace c then (.afterName written, none)
    else if c = '=' then (.afterEquals written, none)
    else if endsName c then (readGap offset c, some written.bare)
    else (.naming start (c :: chars), none)
  | .afterName name =>
    if Text.isMarkupSpace c then (.afterName name, none)
    else if c = '=' then (.afterEquals name, none)
    else (readGap offset c, some name.bare)
  | .afterEquals name =>
    if Text.isMarkupSpace c then (.afterEquals name, none)
    else if c = '"' || c = '\'' then (.quoted name c (offset + 1) [], none)
    else if c = '>' then (.done, some (name.withValue .unquoted [] ⟨offset, offset⟩ offset))
    else (.unquoted name offset [c], none)
  | .unquoted name start chars =>
    if c = '>' then (.done, some (name.withValue .unquoted chars ⟨start, offset⟩ offset))
    else if Text.isMarkupSpace c then
      (.gap, some (name.withValue .unquoted chars ⟨start, offset⟩ offset))
    else (.unquoted name start (c :: chars), none)
  | .quoted name mark start chars =>
    if c = mark then
      (.gap, some (name.withValue (quoteOf mark) chars ⟨start, offset⟩ (offset + 1)))
    else (.quoted name mark start (c :: chars), none)
  | .done => (.done, none)

/-- The attribute that the end of the tag at `length` cuts off. -/
def finish (phase : AttributePhase) (length : Nat) : Option Attribute :=
  match phase with
  | .naming start chars => some (WrittenName.ofReversed start length chars).bare
  | .afterName name => some name.bare
  | .afterEquals name => some (name.withValue .unquoted [] ⟨length, length⟩ length)
  | .unquoted name start chars => some (name.withValue .unquoted chars ⟨start, length⟩ length)
  | .quoted name mark start chars =>
    some (name.withValue (quoteOf mark) chars ⟨start, length⟩ length)
  | _ => none

end AttributePhase

/-- The attributes read from `offset` on, from the given phase. -/
def readAttributesFrom : AttributePhase → Nat → List Char → List Attribute
  | phase, offset, [] => (phase.finish offset).toList
  | phase, offset, c :: rest =>
    match phase.step offset c with
    | (next, none) => readAttributesFrom next (offset + c.utf8Size) rest
    | (next, some attr) =>
      attr :: readAttributesFrom next (offset + c.utf8Size) rest

/-- The attributes of an opening tag that stands at offset `base` of its document. -/
def readAttributes (tag : List Char) (base : Nat) : List Attribute :=
  readAttributesFrom .outside base tag

end AccessibleMarkup.Markup
