/-! ASCII letters and digits: lower case, comparison without regard to case, and decimal integers.
Other characters are left alone and compared exactly. An integer is an optional sign and digits, nothing
else. -/
namespace AccessibleMarkup.Text

def asciiLower (s : String) : String := String.ofList (s.toList.map Char.toLower)

def sameIgnoringCase (left right : String) : Bool := asciiLower left == asciiLower right

/-- Whether the string is one of the listed ones, ignoring the case of ASCII letters. -/
def oneOfIgnoringCase (s : String) (choices : List String) : Bool :=
  choices.any (sameIgnoringCase s)

/-- The number that a run of ASCII digits writes; there is no number without digits. -/
def readDigits? (digits : List Char) : Option Nat :=
  if !digits.isEmpty && digits.all Char.isDigit then
    some (digits.foldl (fun total d => total * 10 + (d.toNat - '0'.toNat)) 0)
  else none

/-- Reads a number without a minus sign that is at most `limit`. -/
def readNatural? (limit : Nat) (s : String) : Option Nat :=
  let digits := match s.toList with
    | '+' :: rest => rest
    | chars => chars
  (readDigits? digits).filter (· ≤ limit)

def valuesOf (bits : Nat) : Nat := Nat.pow 2 bits

def readInteger? (s : String) : Option Int :=
  match s.toList with
  | '-' :: rest => ((readDigits? rest).filter (· ≤ valuesOf 63)).map fun n => -(n : Int)
  | '+' :: rest => ((readDigits? rest).filter (· < valuesOf 63)).map fun n => (n : Int)
  | chars => ((readDigits? chars).filter (· < valuesOf 63)).map fun n => (n : Int)

end AccessibleMarkup.Text
