import AccessibleMarkup.Text.Blank
import AccessibleMarkup.Text.CharClass

/-! Text patterns. A pattern maps a place in a text to all places where a match from there may end,
so that sequence and choice need no backtracking. Letters match in either case. -/
namespace AccessibleMarkup.Text

/-- A place in a text: the character before it and the characters after it. -/
structure Cursor where
  before : Option Char
  rest : List Char
  deriving DecidableEq, Repr

def Pattern : Type := Cursor → List Cursor

namespace Pattern

def one (accepts : Char → Bool) : Pattern := fun cursor =>
  match cursor.rest with
  | [] => []
  | c :: rest => if accepts c then [⟨some c, rest⟩] else []

def andThen (first second : Pattern) : Pattern := fun cursor => (first cursor).flatMap second

def empty : Pattern := fun cursor => [cursor]

def sequence (parts : List Pattern) : Pattern := parts.foldr andThen empty

def choice (options : List Pattern) : Pattern := fun cursor => options.flatMap fun p => p cursor

def optional (p : Pattern) : Pattern := choice [p, empty]

/-- The places that a run of characters of a class leads to. -/
def runEnds (accepts : Char → Bool) : Option Char → List Char → List Cursor
  | before, [] => [⟨before, []⟩]
  | before, c :: rest =>
    ⟨before, c :: rest⟩ :: (if accepts c then runEnds accepts (some c) rest else [])

def many (accepts : Char → Bool) : Pattern := fun cursor =>
  runEnds accepts cursor.before cursor.rest

def atLeastOne (accepts : Char → Bool) : Pattern := andThen (one accepts) (many accepts)

def upTo (accepts : Char → Bool) : Nat → Pattern
  | 0 => empty
  | count + 1 => optional (andThen (one accepts) (upTo accepts count))

def between (least most : Nat) (accepts : Char → Bool) : Pattern :=
  andThen (sequence (List.replicate least (one accepts))) (upTo accepts (most - least))

/-- Whether a character is the small letter or one that folds to it. The long s and the sign for
kelvin fold to letters of ASCII. -/
def isLetter (letter c : Char) : Bool :=
  c.toLower == letter || (letter == 's' && c.toNat == 0x17F) || (letter == 'k' && c.toNat == 0x212A)

def phrase (text : String) : Pattern := sequence (text.toList.map fun letter => one (isLetter letter))

def oneOf (texts : List String) : Pattern := choice (texts.map phrase)

def oneIn (chars : List Char) : Pattern := one chars.contains

def digits (least most : Nat) : Pattern := between least most isDecimalDigit

def someDigits : Pattern := atLeastOne isDecimalDigit

def blanks : Pattern := many isBlank

def someBlanks : Pattern := atLeastOne isBlank

def isAsciiLetter (c : Char) : Bool := c.isAlpha || c.toNat == 0x17F || c.toNat == 0x212A

/-- A place where words start or end: a word character on one side only. -/
def wordEdge : Pattern := fun cursor =>
  if cursor.before.any isWordChar != cursor.rest.head?.any isWordChar then [cursor] else []

def textStart : Pattern := fun cursor => if cursor.before.isNone then [cursor] else []

def textEnd : Pattern := fun cursor => if cursor.rest.isEmpty then [cursor] else []

def matchesStart (p : Pattern) (text : List Char) : Bool := !(p ⟨none, text⟩).isEmpty

def occursFrom (p : Pattern) : Option Char → List Char → Bool
  | before, [] => !(p ⟨before, []⟩).isEmpty
  | before, c :: rest => !(p ⟨before, c :: rest⟩).isEmpty || occursFrom p (some c) rest

def occursIn (p : Pattern) (text : List Char) : Bool := occursFrom p none text

end Pattern

end AccessibleMarkup.Text
