import AccessibleMarkup.Text.Ascii
import AccessibleMarkup.Toml.Value

/-! Scalars of TOML: strings in their four forms, numbers, dates and times. A reader takes the
characters that are left and gives a value with what follows it. -/
namespace AccessibleMarkup.Toml

/-- The characters that may stand in comments and strings: all but the control characters. -/
def isPlainChar (c : Char) : Bool := c == '\t' || (32 ≤ c.toNat && c.toNat ≠ 127)

def isInlineSpace (c : Char) : Bool := c == ' ' || c == '\t'

def startsNewline : List Char → Bool
  | '\n' :: _ => true
  | '\r' :: '\n' :: _ => true
  | _ => false

def dropNewline : List Char → List Char
  | '\n' :: rest => rest
  | '\r' :: '\n' :: rest => rest
  | rest => rest

def hexValue? (c : Char) : Option Nat :=
  if c.isDigit then some (c.toNat - '0'.toNat)
  else if 'a' ≤ c && c ≤ 'f' then some (c.toNat - 'a'.toNat + 10)
  else if 'A' ≤ c && c ≤ 'F' then some (c.toNat - 'A'.toNat + 10)
  else none

/-- The character with the code point that hexadecimal digits write. -/
def charOfHex? (digits : List Char) : Option Char :=
  (digits.mapM hexValue?).bind fun values =>
    let code := ofDigits 16 values
    if code.isValidChar then some (Char.ofNat code) else none

/-- The character that a letter after a backslash stands for. -/
def escapedChar? : Char → Option Char
  | 'b' => some '\x08'
  | 't' => some '\t'
  | 'n' => some '\n'
  | 'f' => some '\x0c'
  | 'r' => some '\r'
  | '"' => some '"'
  | '\\' => some '\\'
  | _ => none

def consText (c : Char) (read : Option (List Char × List Char)) : Option (List Char × List Char) :=
  read.map fun (text, rest) => (c :: text, rest)

def readBasic : List Char → Option (List Char × List Char)
  | [] => none
  | '"' :: rest => some ([], rest)
  | '\\' :: 'u' :: a :: b :: c :: d :: rest =>
    (charOfHex? [a, b, c, d]).bind fun char => consText char (readBasic rest)
  | '\\' :: 'U' :: a :: b :: c :: d :: e :: f :: g :: h :: rest =>
    (charOfHex? [a, b, c, d, e, f, g, h]).bind fun char => consText char (readBasic rest)
  | '\\' :: c :: rest => (escapedChar? c).bind fun char => consText char (readBasic rest)
  | c :: rest => if isPlainChar c && c != '\\' then consText c (readBasic rest) else none

def readLiteral : List Char → Option (List Char × List Char)
  | [] => none
  | '\'' :: rest => some ([], rest)
  | c :: rest => if isPlainChar c then consText c (readLiteral rest) else none

/-- The rest of a string in three double quotes. After a backslash at the end of a line, `trimming`
skips white space and line ends. Up to two quotes may come before the closing ones. -/
def readLongBasic : Bool → List Char → Option (List Char × List Char)
  | _, [] => none
  | _, '"' :: '"' :: '"' :: '"' :: '"' :: rest => some (['"', '"'], rest)
  | _, '"' :: '"' :: '"' :: '"' :: rest => some (['"'], rest)
  | _, '"' :: '"' :: '"' :: rest => some ([], rest)
  | _, '\\' :: 'u' :: a :: b :: c :: d :: rest =>
    (charOfHex? [a, b, c, d]).bind fun char => consText char (readLongBasic false rest)
  | _, '\\' :: 'U' :: a :: b :: c :: d :: e :: f :: g :: h :: rest =>
    (charOfHex? [a, b, c, d, e, f, g, h]).bind fun char => consText char (readLongBasic false rest)
  | _, '\\' :: c :: rest =>
    match escapedChar? c with
    | some char => consText char (readLongBasic false rest)
    | none =>
      if startsNewline ((c :: rest).dropWhile isInlineSpace) then readLongBasic true (c :: rest)
      else none
  | trimming, '\r' :: '\n' :: rest =>
    if trimming then readLongBasic true rest else consText '\n' (readLongBasic false rest)
  | trimming, c :: rest =>
    if trimming && (isInlineSpace c || c == '\n') then readLongBasic true rest
    else if c == '\n' || (isPlainChar c && c != '\\') then consText c (readLongBasic false rest)
    else none

def readLongLiteral : List Char → Option (List Char × List Char)
  | [] => none
  | '\'' :: '\'' :: '\'' :: '\'' :: '\'' :: rest => some (['\'', '\''], rest)
  | '\'' :: '\'' :: '\'' :: '\'' :: rest => some (['\''], rest)
  | '\'' :: '\'' :: '\'' :: rest => some ([], rest)
  | '\r' :: '\n' :: rest => consText '\n' (readLongLiteral rest)
  | c :: rest =>
    if c == '\n' || isPlainChar c then consText c (readLongLiteral rest) else none

def readString : List Char → Option (String × List Char)
  | '"' :: '"' :: '"' :: rest => asString (readLongBasic false (dropNewline rest))
  | '"' :: rest => asString (readBasic rest)
  | '\'' :: '\'' :: '\'' :: rest => asString (readLongLiteral (dropNewline rest))
  | '\'' :: rest => asString (readLiteral rest)
  | _ => none
where
  asString (read : Option (List Char × List Char)) : Option (String × List Char) :=
    read.map fun (text, rest) => (String.ofList text, rest)

/-- Digits with single underscores between them, without the underscores. -/
def plainDigits? (isDigit : Char → Bool) : List Char → Option (List Char)
  | [] => none
  | [c] => if isDigit c then some [c] else none
  | c :: '_' :: rest => if isDigit c then (plainDigits? isDigit rest).map (c :: ·) else none
  | c :: rest => if isDigit c then (plainDigits? isDigit rest).map (c :: ·) else none

/-- The digits of a decimal number, which has no zero in front. -/
def decimalDigits? (text : List Char) : Option (List Char) :=
  (plainDigits? Char.isDigit text).filter fun digits => digits.length == 1 || digits.head? != some '0'

/-- The number that digits of a base write in a form with a letter in front. -/
def basedNumber? (base : Nat) (text : List Char) : Option Nat :=
  let isDigit := fun c => (hexValue? c).any (· < base)
  (plainDigits? isDigit text).bind fun digits => (digits.mapM hexValue?).map (ofDigits base)

def splitSign : List Char → Bool × List Char
  | '-' :: rest => (true, rest)
  | '+' :: rest => (false, rest)
  | rest => (false, rest)

def integerOf? (negative : Bool) (size : Nat) : Option Value :=
  if negative then if size ≤ Text.valuesOf 63 then some (.integer (-(size : Int))) else none
  else if size < Text.valuesOf 63 then some (.integer size) else none

def readInteger? (text : List Char) : Option Value :=
  match text with
  | '0' :: 'x' :: digits => (basedNumber? 16 digits).bind (integerOf? false)
  | '0' :: 'o' :: digits => (basedNumber? 8 digits).bind (integerOf? false)
  | '0' :: 'b' :: digits => (basedNumber? 2 digits).bind (integerOf? false)
  | _ =>
    let (negative, digits) := splitSign text
    (decimalDigits? digits).bind fun plain => integerOf? negative (natOf plain)

/-- The floating-point number nearest to `digits` times ten to the `exponent`. Exponents that lead
out of the range of such numbers are not worked out. -/
def floatOf (negative : Bool) (digits : Nat) (exponent : Int) : Float :=
  let places := (Nat.toDigits 10 digits).length
  let size : Float :=
    if digits = 0 || (places : Int) + exponent < -400 then 0
    else if 400 < (places : Int) + exponent then 1 / 0
    else if exponent < 0 then Float.ofScientific digits true (-exponent).toNat
    else Float.ofScientific digits false exponent.toNat
  if negative then -size else size

def exponent? (text : List Char) : Option Int :=
  let (negative, digits) := splitSign text
  (plainDigits? Char.isDigit digits).map fun plain =>
    if negative then -(natOf plain : Int) else (natOf plain : Int)

/-- A floating-point number with a fraction, an exponent or both. One too large for the format is
refused; the negative counterpart is not. -/
def readFloat? (text : List Char) : Option Value := do
  let (negative, size) := splitSign text
  if size = ['i', 'n', 'f'] then return .float (if negative then -(1 / 0) else 1 / 0)
  if size = ['n', 'a', 'n'] then return .float (if negative then -(0 / 0) else 0 / 0)
  let isExponentMark := fun c => c == 'e' || c == 'E'
  let mantissa := size.takeWhile fun c => !isExponentMark c
  let tail := size.drop mantissa.length
  let whole ← decimalDigits? (mantissa.takeWhile (· != '.'))
  let fraction ← match mantissa.dropWhile (· != '.') with
    | [] => some []
    | _ :: digits => plainDigits? Char.isDigit digits
  let exponent ← match tail with
    | [] => some 0
    | _ :: digits => exponent? digits
  if fraction.isEmpty && tail.isEmpty then none
  let number := floatOf negative (natOf (whole ++ fraction)) (exponent - fraction.length)
  if !negative && number.isInf then none
  return .float number

/-- The characters of numbers, dates and names of constants. -/
def isWordChar (c : Char) : Bool :=
  c.isAlphanum || c == '+' || c == '-' || c == '_' || c == '.' || c == ':'

/-- Whether a time follows the date in `word` after a space. -/
def continuesWithTime (word rest : List Char) : Bool :=
  match Date.read? word, rest with
  | some (_, []), ' ' :: a :: b :: ':' :: _ => a.isDigit && b.isDigit
  | _, _ => false

def ofWord? (word : List Char) : Option Value :=
  if word = ['t', 'r', 'u', 'e'] then some (.boolean true)
  else if word = ['f', 'a', 'l', 's', 'e'] then some (.boolean false)
  else ((Moment.read? word).map .moment).or ((readFloat? word).or (readInteger? word))

def readWord (text : List Char) : Option (Value × List Char) :=
  let word := text.takeWhile isWordChar
  let rest := text.drop word.length
  if continuesWithTime word rest then
    let time := (rest.drop 1).takeWhile isWordChar
    (ofWord? (word ++ ' ' :: time)).map fun value => (value, rest.drop (time.length + 1))
  else (ofWord? word).map fun value => (value, rest)

end AccessibleMarkup.Toml
