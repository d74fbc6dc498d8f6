import AccessibleMarkup.Text.Pattern

/-! Patterns for paths. A star and a question mark stay within a name, and two stars alone between
slashes stand for any directories. -/
namespace AccessibleMarkup

abbrev CharRanges : Type := List (Char × Char)

namespace CharRanges

/-- Reads the ranges; a hyphen between two characters makes one. -/
def read : List Char → CharRanges
  | first :: '-' :: last :: rest => (first, last) :: read rest
  | c :: rest => (c, c) :: read rest
  | [] => []

def contains (ranges : CharRanges) (c : Char) : Bool :=
  ranges.any fun range => range.1 ≤ c && c ≤ range.2

/-- The text up to the closing bracket. A bracket at the start belongs to the text. -/
def inside? : List Char → Option (List Char)
  | [] => none
  | first :: rest =>
    if rest.contains ']' then some (first :: rest.takeWhile (· != ']')) else none

end CharRanges

inductive GlobToken where
  | char (c : Char)
  /-- One character of a name. -/
  | anyChar
  /-- One character of a name that is, or is not, in the ranges. -/
  | inRanges (ranges : CharRanges) (expected : Bool)
  /-- Any part of a name. -/
  | anyName
  /-- Any directories. -/
  | anyDirectories
  deriving DecidableEq, Repr

structure Glob where
  tokens : List GlobToken
  deriving DecidableEq, Repr

namespace Glob

/-- Reads what a star starts, given the character before it and the text after it: the token, and
how many characters of the text belong to it. Two stars have to stand alone between slashes. -/
def readStars? (before : Option Char) (rest : List Char) : Option (GlobToken × Nat) :=
  match rest with
  | '*' :: '*' :: _ => none
  | '*' :: after =>
    if before.any (· != '/') then none
    else match after with
      | [] => some (.anyDirectories, 1)
      | '/' :: _ => some (.anyDirectories, 2)
      | _ => none
  | _ => some (.anyName, 0)

def readRanges? (rest : List Char) : Option (GlobToken × Nat) :=
  match rest with
  | '!' :: after =>
    (CharRanges.inside? after).map fun inside =>
      (.inRanges (CharRanges.read inside) false, inside.length + 2)
  | _ =>
    (CharRanges.inside? rest).map fun inside =>
      (.inRanges (CharRanges.read inside) true, inside.length + 1)

/-- Reads the tokens of a pattern after skipping some characters. -/
def readFrom? : Nat → Option Char → List Char → Option (List GlobToken)
  | _, _, [] => some []
  | skip + 1, _, c :: rest => readFrom? skip (some c) rest
  | 0, before, c :: rest =>
    if c = '?' then (readFrom? 0 (some c) rest).map (.anyChar :: ·)
    else if c = '*' then
      (readStars? before rest).bind fun (token, skip) =>
        (readFrom? skip (some c) rest).map (token :: ·)
    else if c = '[' then
      (readRanges? rest).bind fun (token, skip) =>
        (readFrom? skip (some c) rest).map (token :: ·)
    else (readFrom? 0 (some c) rest).map (.char c :: ·)

def read? (text : String) : Option Glob := (readFrom? 0 none text.toList).map Glob.mk

open Text Text.Pattern

def someDirectories : Pattern := optional (sequence [many fun _ => true, one (· == '/')])

def tokenPattern : GlobToken → Pattern
  | .char c => one (· == c)
  | .anyChar => one (· != '/')
  | .inRanges ranges expected => one fun c => c != '/' && ranges.contains c == expected
  | .anyName => many (· != '/')
  | .anyDirectories => someDirectories

/-- The pattern of tokens up to the end of the text. At the end two stars stand for anything. -/
def patternOf : List GlobToken → Pattern
  | [] => textEnd
  | [.anyDirectories] => empty
  | token :: rest => andThen (tokenPattern token) (patternOf rest)

/-- Whether a path with slashes between its names fits the pattern. -/
def accepts (glob : Glob) (path : String) : Bool := (patternOf glob.tokens).matchesStart path.toList

end Glob

end AccessibleMarkup
