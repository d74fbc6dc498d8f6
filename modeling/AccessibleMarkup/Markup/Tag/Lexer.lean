import AccessibleMarkup.Markup.Names
import AccessibleMarkup.Markup.Tag
import AccessibleMarkup.Text.Blank

/-! The tag lexer. It reads a text one character at a time: each step takes the lexer from one
phase to the next and may end a tag. A quote after an equals sign makes everything up to the same
quote part of the tag; a bracket that no letter, slash and letter, exclamation mark or question
mark follows is plain text. Reading a text in two parts is reading it in one. -/
namespace AccessibleMarkup.Markup

/-- Where the lexer stands between the name and the end of an opening tag. -/
inductive TagInterior where
  /-- Outside values; `slash` tells whether the last character was a slash. -/
  | plain (slash : Bool)
  /-- After an equals sign and white space, where a quote opens a value. -/
  | value
  /-- In a value that ends at `mark`. -/
  | quoted (mark : Char)
  deriving DecidableEq, Repr

/-- The interior after one more character that does not end the tag. -/
def TagInterior.next (interior : TagInterior) (c : Char) : TagInterior :=
  match interior with
  | .quoted mark => if c = mark then .plain false else .quoted mark
  | .value =>
    if c = '=' || Text.isMarkupSpace c then .value
    else if c = '"' || c = '\'' then .quoted c
    else .plain (c = '/')
  | .plain _ => if c = '=' then .value else .plain (c = '/')

def TagInterior.endsAt (interior : TagInterior) (c : Char) : Bool :=
  match interior with
  | .quoted _ => false
  | _ => c = '>'

/-- Whether a tag that ends here is written with a slash before its end. -/
def TagInterior.slashed : TagInterior → Bool
  | .plain slash => slash
  | _ => false

/-- Where the lexer stands in markup that starts with an exclamation or question mark. -/
inductive MarkupInterior where
  /-- After the exclamation mark. -/
  | bang
  /-- After the exclamation mark and one dash. -/
  | dash
  /-- After a part of the opening of a character data section; `rest` is still to come. -/
  | sectionOpening (rest : List Char)
  /-- In a comment, after `dashes` dashes in a row, at most two of them counted. -/
  | comment (dashes : Nat)
  /-- In a character data section, after `brackets` brackets in a row, at most two counted. -/
  | sectionBody (brackets : Nat)
  /-- In markup that ends at the next angle bracket. -/
  | declaration
  deriving DecidableEq, Repr

/-- The interior after one more character; nothing is left when the character ends the markup. -/
def MarkupInterior.next? (interior : MarkupInterior) (c : Char) : Option MarkupInterior :=
  match interior with
  | .bang =>
    if c = '-' then some .dash
    else if c = '[' then some (.sectionOpening ['C', 'D', 'A', 'T', 'A', '['])
    else if c = '>' then none
    else some .declaration
  | .dash =>
    if c = '-' then some (.comment 2)
    else if c = '>' then none
    else some .declaration
  | .sectionOpening [] => some .declaration
  | .sectionOpening (expected :: rest) =>
    if c = expected then
      if rest.isEmpty then some (.sectionBody 0) else some (.sectionOpening rest)
    else if c = '>' then none
    else some .declaration
  | .comment dashes =>
    if c = '-' then some (.comment (min (dashes + 1) 2))
    else if c = '>' && dashes = 2 then none
    else some (.comment 0)
  | .sectionBody brackets =>
    if c = ']' then some (.sectionBody (min (brackets + 1) 2))
    else if c = '>' && brackets = 2 then none
    else some (.sectionBody 0)
  | .declaration => if c = '>' then none else some .declaration

/-- What the lexer is in the middle of. Names are kept with their last character first. -/
inductive LexPhase where
  | text
  /-- After an angle bracket at `start`. -/
  | bracket (start : Nat)
  /-- After an angle bracket at `start` and a slash. -/
  | bracketSlash (start : Nat)
  | openingName (start : Nat) (name : List Char)
  | openingInterior (start : Nat) (name : String) (interior : TagInterior)
  | closingName (start : Nat) (name : List Char)
  | closingInterior (start : Nat) (name : String)
  | markup (start : Nat) (interior : MarkupInterior)
  /-- In the text of a raw element. -/
  | raw (element : RawElement)
  | rawBracket (element : RawElement) (start : Nat)
  /-- After an angle bracket at `start`, a slash and some of a name in raw text. -/
  | rawName (element : RawElement) (start : Nat) (name : List Char)
  deriving DecidableEq, Repr

namespace LexPhase

def nameOf (reversed : List Char) : String := String.ofList reversed.reverse

/-- The phase after an opening tag that ended with a bracket. -/
def afterOpening (name : String) (selfClosing : Bool) : LexPhase :=
  if selfClosing then .text
  else match RawElement.ofName? name with
    | some element => .raw element
    | none => .text

def endOpening (start offset : Nat) (name : String) (selfClosing : Bool) : LexPhase × Option Tag :=
  (afterOpening name selfClosing,
    some ⟨.opening selfClosing, name, start, offset + 1, true⟩)

def endClosing (start offset : Nat) (name : String) : LexPhase × Option Tag :=
  (.text, some ⟨.closing, name, start, offset + 1, true⟩)

/-- A character of plain text: an angle bracket may start a tag. -/
def readText (offset : Nat) (c : Char) : LexPhase :=
  if c = '<' then .bracket offset else .text

def readRaw (element : RawElement) (offset : Nat) (c : Char) : LexPhase :=
  if c = '<' then .rawBracket element offset else .raw element

def leaveClosingName (start offset : Nat) (name : String) (c : Char) : LexPhase × Option Tag :=
  if c = '>' then endClosing start offset name else (.closingInterior start name, none)

def step (phase : LexPhase) (offset : Nat) (c : Char) : LexPhase × Option Tag :=
  match phase with
  | .text => (readText offset c, none)
  | .bracket start =>
    if c.isAlpha then (.openingName start [c], none)
    else if c = '/' then (.bracketSlash start, none)
    else if c = '!' then (.markup start .bang, none)
    else if c = '?' then (.markup start .declaration, none)
    else (readText offset c, none)
  | .bracketSlash start =>
    if c.isAlpha then (.closingName start [c], none) else (readText offset c, none)
  | .openingName start name =>
    if isNameChar c then (.openingName start (c :: name), none)
    else if c = '>' then endOpening start offset (nameOf name) false
    else (.openingInterior start (nameOf name) (TagInterior.next (.plain false) c), none)
  | .openingInterior start name interior =>
    if interior.endsAt c then endOpening start offset name interior.slashed
    else (.openingInterior start name (interior.next c), none)
  | .closingName start name =>
    if isNameChar c then (.closingName start (c :: name), none)
    else leaveClosingName start offset (nameOf name) c
  | .closingInterior start name =>
    if c = '>' then endClosing start offset name else (.closingInterior start name, none)
  | .markup start interior =>
    match interior.next? c with
    | some next => (.markup start next, none)
    | none => (.text, some ⟨.markup, "", start, offset + 1, true⟩)
  | .raw element => (readRaw element offset c, none)
  | .rawBracket element start =>
    if c = '/' then (.rawName element start [], none) else (readRaw element offset c, none)
  | .rawName element start name =>
    if isNameChar c then (.rawName element start (c :: name), none)
    else if element.endedBy (nameOf name) then leaveClosingName start offset (nameOf name) c
    else (readRaw element offset c, none)

/-- The tag that the end of the text at `length` cuts off. -/
def finish (phase : LexPhase) (length : Nat) : Option Tag :=
  match phase with
  | .openingName start name => some ⟨.opening false, nameOf name, start, length, false⟩
  | .openingInterior start name _ => some ⟨.opening false, name, start, length, false⟩
  | .closingName start name => some ⟨.closing, nameOf name, start, length, false⟩
  | .closingInterior start name => some ⟨.closing, name, start, length, false⟩
  | .markup start _ => some ⟨.markup, "", start, length, false⟩
  | .rawName element start name =>
    if element.endedBy (nameOf name) then some ⟨.closing, nameOf name, start, length, false⟩
    else none
  | _ => none

end LexPhase

/-- The tags of a text that starts at `offset`, read from the given phase on. -/
def lexFrom : LexPhase → Nat → List Char → List Tag
  | phase, offset, [] => (phase.finish offset).toList
  | phase, offset, c :: rest =>
    match phase.step offset c with
    | (next, none) => lexFrom next (offset + c.utf8Size) rest
    | (next, some tag) => tag :: lexFrom next (offset + c.utf8Size) rest

def lex (text : List Char) : List Tag := lexFrom .text 0 text

/-- The tags found when reading starts at `position`, which is moved back to the end of the text.
A position inside a character finds none. -/
def lexAt (text : List Char) (position : Nat) : List Tag :=
  let start := min position (Text.byteLength text)
  match Text.splitAt? text start with
  | some (_, rest) => lexFrom .text start rest
  | none => []

end AccessibleMarkup.Markup
