import AccessibleMarkup.Markup.Tag.Lexer

/-! Blanking of template control flow. Statements of template languages, and tags in the name
spaces of tag libraries, are not part of the rendered page. They are replaced by spaces, one for
each byte, so that every offset stays what it was; line breaks are kept. Expressions that write
output are left in place. -/
namespace AccessibleMarkup.Markup

/-- The opening and closing of a template statement. -/
structure Delimiter where
  opening : List Char
  closing : List Char
  deriving DecidableEq, Repr

namespace Delimiter

/-- The statements that are blanked, each before any that its opening starts with. -/
def all : List Delimiter :=
  [⟨['<', '%', '-', '-'], ['-', '-', '%', '>']⟩,
    ⟨['<', '%'], ['%', '>']⟩,
    ⟨['\x7b', '%'], ['%', '\x7d']⟩,
    ⟨['\x7b', '#'], ['#', '\x7d']⟩,
    ⟨['\x7b', '\x7b', '!', '-', '-'], ['-', '-', '\x7d', '\x7d']⟩,
    ⟨['\x7b', '\x7b', '!'], ['\x7d', '\x7d']⟩,
    ⟨['\x7b', '\x7b', '#'], ['\x7d', '\x7d']⟩,
    ⟨['\x7b', '\x7b', '/'], ['\x7d', '\x7d']⟩,
    ⟨['\x7b', '\x7b', '^'], ['\x7d', '\x7d']⟩,
    ⟨['\x7b', '\x7b', 'e', 'l', 's', 'e'], ['\x7d', '\x7d']⟩]

/-- Whether the text starts with an expression or a directive, which are kept. -/
def isKept (text : List Char) : Bool :=
  ['<', '%', '='].isPrefixOf text || ['<', '%', '@'].isPrefixOf text

/-- The delimiter of the statement that the text starts with. -/
def starting? (text : List Char) : Option Delimiter :=
  if isKept text then none else all.find? fun delimiter => delimiter.opening.isPrefixOf text

end Delimiter

/-- Where the search for statements stands. -/
inductive StatementPhase where
  /-- Outside statements, with `skip` characters of a closing still to pass. -/
  | outside (skip : Nat)
  /-- In a statement, with `skip` characters of its opening still to pass. -/
  | inside (start : Nat) (skip : Nat) (closing : List Char)
  deriving DecidableEq, Repr

/-- The ranges of the template statements of a text, from `offset` on. A statement that is not
closed goes up to the end. -/
def statementRangesFrom : StatementPhase → Nat → List Char → List ByteRange
  | .outside _, _, [] => []
  | .inside start _ _, offset, [] => [⟨start, offset⟩]
  | .outside (skip + 1), offset, c :: rest =>
    statementRangesFrom (.outside skip) (offset + c.utf8Size) rest
  | .outside 0, offset, c :: rest =>
    match Delimiter.starting? (c :: rest) with
    | some delimiter =>
      statementRangesFrom (.inside offset (delimiter.opening.length - 1) delimiter.closing)
        (offset + c.utf8Size) rest
    | none => statementRangesFrom (.outside 0) (offset + c.utf8Size) rest
  | .inside start (skip + 1) closing, offset, c :: rest =>
    statementRangesFrom (.inside start skip closing) (offset + c.utf8Size) rest
  | .inside start 0 closing, offset, c :: rest =>
    if closing.isPrefixOf (c :: rest) then
      ⟨start, offset + Text.byteLength closing⟩ ::
        statementRangesFrom (.outside (closing.length - 1)) (offset + c.utf8Size) rest
    else statementRangesFrom (.inside start 0 closing) (offset + c.utf8Size) rest

def statementRanges (text : List Char) : List ByteRange := statementRangesFrom (.outside 0) 0 text

/-- The name space of a tag name: the part before its first colon. -/
def nameSpace? (name : String) : Option String :=
  let chars := name.toList
  if chars.contains ':' then some (String.ofList (chars.takeWhile (· != ':'))) else none

/-- Whether a tag is in one of the name spaces, in any case. -/
def inNameSpaces (nameSpaces : List String) (name : String) : Bool :=
  (nameSpace? name).any fun space => Text.oneOfIgnoringCase space nameSpaces

/-- The ranges of the opening and closing tags in the name spaces. -/
def controlTagRanges (nameSpaces : List String) (text : List Char) : List ByteRange :=
  ((lex text).filter fun tag => !tag.isMarkup && inNameSpaces nameSpaces tag.name).map (·.range)

/-- As many spaces as the character has bytes; line breaks are kept. -/
def blankChar (c : Char) : List Char :=
  if c = '\n' || c = '\r' then [c] else List.replicate c.utf8Size ' '

/-- Blanks the characters that lie in the ranges, which are sorted by their starts. -/
def blankFrom (ranges : List ByteRange) (offset : Nat) : List Char → List Char
  | [] => []
  | c :: rest =>
    let ahead := ranges.dropWhile (·.stop ≤ offset)
    let here := if ahead.head?.any (·.contains offset) then blankChar c else [c]
    here ++ blankFrom ahead (offset + c.utf8Size) rest

/-- Blanks the characters that lie in at least one of the ranges. -/
def blank (ranges : List ByteRange) (text : List Char) : List Char :=
  blankFrom (ranges.mergeSort fun left right => left.start ≤ right.start) 0 text

end AccessibleMarkup.Markup
