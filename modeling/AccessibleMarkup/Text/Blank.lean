/-! White space: the characters with the Unicode property `White_Space`, trimming, words and
lines. -/
namespace AccessibleMarkup.Text

def isBlank (c : Char) : Bool :=
  let n := c.toNat
  (9 ≤ n && n ≤ 13) || n == 0x20 || n == 0x85 || n == 0xA0 || n == 0x1680 ||
    (0x2000 ≤ n && n ≤ 0x200A) || n == 0x2028 || n == 0x2029 || n == 0x202F || n == 0x205F ||
    n == 0x3000

/-- The white space that separates attributes inside a tag: space, tab, line feed, form feed and
carriage return. -/
def isMarkupSpace (c : Char) : Bool :=
  c == ' ' || c == '\t' || c == '\n' || c == '\x0c' || c == '\r'

def trimStart (text : List Char) : List Char := text.dropWhile isBlank

def trimEnd (text : List Char) : List Char := (text.reverse.dropWhile isBlank).reverse

def trim (s : String) : String := String.ofList (trimEnd (trimStart s.toList))

def isAllBlank (text : List Char) : Bool := text.all isBlank

def blankString (s : String) : Bool := isAllBlank s.toList

/-- The longest runs of characters that are not blank, in order. -/
def wordRuns : List Char → List (List Char)
  | [] => []
  | c :: rest =>
    if isBlank c then wordRuns rest
    else match rest with
      | [] => [[c]]
      | d :: _ =>
        if isBlank d then [c] :: wordRuns rest
        else match wordRuns rest with
          | [] => [[c]]
          | word :: more => (c :: word) :: more

def words (s : String) : List String := (wordRuns s.toList).map String.ofList

def collapse (text : List Char) : String :=
  String.intercalate " " ((wordRuns text).map String.ofList)

/-- The line without the carriage return before its line feed. -/
def dropCarriageReturn (line : List Char) : List Char :=
  match line.reverse with
  | '\r' :: before => before.reverse
  | _ => line

/-- The lines of a text. A line ends with a line feed, a carriage return before it belongs to the
line end, and a text that ends with a line feed has no empty line after it. -/
def lines (text : List Char) : List (List Char) :=
  match (text.splitOn '\n').reverse with
  | [] => []
  | last :: ended =>
    (ended.map dropCarriageReturn).reverse ++ (if last.isEmpty then [] else [last])

end AccessibleMarkup.Text
