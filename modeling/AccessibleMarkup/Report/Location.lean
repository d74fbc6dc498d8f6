import AccessibleMarkup.Text.Bytes

/-! Places in documents, by byte range and by line and column. -/
namespace AccessibleMarkup

/-- A range of a document with the line and column where it starts. -/
structure Location where
  /-- The file that the document was read from. -/
  file : Option String := none
  /-- Line number, from one. -/
  line : Nat
  /-- Column number in characters, from one. -/
  column : Nat
  /-- Offset of the first byte. -/
  offset : Nat
  /-- Number of bytes. -/
  length : Nat
  deriving DecidableEq, Repr

namespace Location

def range (location : Location) : ByteRange :=
  ⟨location.offset, location.offset + location.length⟩

def displayFile (location : Location) : String := location.file.getD "<input>"

/-- The characters before the offset that stand on its line. -/
def lineBefore (before : List Char) : List Char := before.reverse.takeWhile (· != '\n')

/-- The column of an offset, given the characters that end at or before it. Inside a character the
column counts bytes. -/
def columnAt (before : List Char) (offset : Nat) : Nat :=
  let onLine := lineBefore before
  if Text.byteLength before = offset then onLine.length + 1
  else Text.byteLength onLine + (offset - Text.byteLength before) + 1

/-- The place of a range of a text. Offsets past the end are moved back to it. -/
def ofRange (text : List Char) (start stop : Nat) : Location :=
  let length := Text.byteLength text
  let offset := min start length
  let before := Text.charsBefore text offset
  { line := before.count '\n' + 1
    column := columnAt before offset
    offset
    length := max offset (min stop length) - offset }

end Location

end AccessibleMarkup
