/-! Byte offsets in text. A text is its list of characters; offsets count the bytes of its UTF-8
form, and an offset inside a character splits nothing. -/
namespace AccessibleMarkup

/-- A half-open range of byte offsets. -/
structure ByteRange where
  start : Nat
  stop : Nat
  deriving DecidableEq, Repr, Inhabited

namespace ByteRange

def contains (range : ByteRange) (offset : Nat) : Bool :=
  range.start ≤ offset && offset < range.stop

def shift (range : ByteRange) (base : Nat) : ByteRange :=
  ⟨base + range.start, base + range.stop⟩

end ByteRange

namespace Text

/-- The number of bytes that the characters take in UTF-8. -/
def byteLength : List Char → Nat
  | [] => 0
  | c :: rest => c.utf8Size + byteLength rest

@[simp, grind =] theorem byteLength_nil : byteLength [] = 0 := rfl

@[simp, grind =] theorem byteLength_cons (c : Char) (rest : List Char) :
    byteLength (c :: rest) = c.utf8Size + byteLength rest := rfl

@[simp, grind =] theorem byteLength_append (left right : List Char) :
    byteLength (left ++ right) = byteLength left + byteLength right := by
  induction left with
  | nil => simp
  | cons c rest ih => simp [ih, Nat.add_assoc]

/-- Splits the text at a byte offset. There is no split past the end or inside a character. -/
def splitAt? : List Char → Nat → Option (List Char × List Char)
  | text, 0 => some ([], text)
  | [], _ + 1 => none
  | c :: rest, n + 1 =>
    if c.utf8Size ≤ n + 1 then
      (splitAt? rest (n + 1 - c.utf8Size)).map fun parts => (c :: parts.1, parts.2)
    else none

/-- The characters from `start` up to `stop`, when both lie between characters in this order. -/
def slice? (text : List Char) (start stop : Nat) : Option (List Char) :=
  if start ≤ stop then
    (splitAt? text start).bind fun parts => (splitAt? parts.2 (stop - start)).map Prod.fst
  else none

/-- The text from a byte offset on; nothing is left where it cannot be split. -/
def dropBytes (text : List Char) (count : Nat) : List Char :=
  ((splitAt? text count).map Prod.snd).getD []

/-- The longest run of leading characters that end at or before the offset. -/
def charsBefore : List Char → Nat → List Char
  | [], _ => []
  | c :: rest, n => if c.utf8Size ≤ n then c :: charsBefore rest (n - c.utf8Size) else []

/-- Splits the text around the first occurrence of `needle`. -/
def breakOn? (needle : List Char) : List Char → Option (List Char × List Char)
  | [] => if needle.isEmpty then some ([], []) else none
  | c :: rest =>
    if needle.isPrefixOf (c :: rest) then some ([], (c :: rest).drop needle.length)
    else (breakOn? needle rest).map fun parts => (c :: parts.1, parts.2)

def occurs (needle text : List Char) : Bool := (breakOn? needle text).isSome

/-- The offsets behind the line feeds of a text that starts at an offset. -/
def lineStartsFrom : Nat → List Char → List Nat
  | _, [] => []
  | offset, c :: rest =>
    (if c = '\n' then [offset + c.utf8Size] else []) ++ lineStartsFrom (offset + c.utf8Size) rest

def lineStarts (text : List Char) : List Nat := 0 :: lineStartsFrom 0 text

theorem lineStartsFrom_append (offset : Nat) (first second : List Char) :
    lineStartsFrom offset (first ++ second) =
      lineStartsFrom offset first ++ lineStartsFrom (offset + byteLength first) second := by
  induction first generalizing offset with
  | nil => rfl
  | cons c rest ih =>
    simp only [List.cons_append, lineStartsFrom, ih, byteLength_cons, List.append_assoc, Nat.add_assoc]

end Text

end AccessibleMarkup
