import AccessibleMarkup.Text.Bytes

/-! Tags of a text: opening and closing tags, and the markup that is neither. -/
namespace AccessibleMarkup.Markup

inductive TagKind where
  /-- An opening tag, written with a slash before its end or not. -/
  | opening (selfClosing : Bool)
  | closing
  /-- A comment, declaration, character data section or processing instruction. -/
  | markup
  deriving DecidableEq, Repr

/-- A tag at its place in a text. -/
structure Tag where
  kind : TagKind
  /-- The name as written, empty for markup. -/
  name : String
  /-- Offset of the opening angle bracket. -/
  start : Nat
  /-- Offset after the closing angle bracket, or the length of the text without one. -/
  stop : Nat
  /-- Whether the closing angle bracket was found. -/
  terminated : Bool
  deriving DecidableEq, Repr

namespace Tag

def range (tag : Tag) : ByteRange := ⟨tag.start, tag.stop⟩

def isOpening (tag : Tag) : Bool :=
  match tag.kind with
  | .opening _ => true
  | _ => false

def isMarkup (tag : Tag) : Bool := tag.kind = .markup

end Tag

end AccessibleMarkup.Markup
