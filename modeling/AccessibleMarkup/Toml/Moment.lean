/-! Dates and times of TOML, alone or together, and the digits they are written in. -/
namespace AccessibleMarkup.Toml

def ofDigits (base : Nat) (digits : List Nat) : Nat := digits.foldl (fun n d => n * base + d) 0

def natOf (digits : List Char) : Nat := ofDigits 10 (digits.map fun d => d.toNat - '0'.toNat)

def fixedDigits? (count : Nat) (text : List Char) : Option (Nat × List Char) :=
  let digits := text.take count
  if digits.length == count && digits.all Char.isDigit then some (natOf digits, text.drop count)
  else none

def zeroPadded (width number : Nat) : String :=
  let digits := toString number
  String.ofList (List.replicate (width - digits.length) '0') ++ digits

def expect? (c : Char) : List Char → Option (List Char)
  | d :: rest => if c == d then some rest else none
  | [] => none

structure Date where
  year : Nat
  month : Nat
  day : Nat
  deriving DecidableEq, Repr

structure Time where
  hour : Nat
  minute : Nat
  second : Nat
  nanosecond : Nat := 0
  deriving DecidableEq, Repr

/-- The distance from universal time. -/
inductive Offset where
  /-- None, written as a letter. -/
  | zulu
  /-- Minutes to the east. -/
  | minutes (count : Int)
  deriving DecidableEq, Repr

structure Moment where
  date : Option Date := none
  time : Option Time := none
  offset : Option Offset := none
  deriving DecidableEq, Repr

namespace Date

def daysInMonth (year month : Nat) : Nat :=
  if month = 2 then
    if year % 4 = 0 && (year % 100 ≠ 0 || year % 400 = 0) then 29 else 28
  else if month = 4 || month = 6 || month = 9 || month = 11 then 30
  else 31

def isValid (date : Date) : Bool :=
  1 ≤ date.month && date.month ≤ 12 && 1 ≤ date.day && date.day ≤ daysInMonth date.year date.month

def read? (text : List Char) : Option (Date × List Char) := do
  let (year, rest) ← fixedDigits? 4 text
  let (month, rest) ← fixedDigits? 2 (← expect? '-' rest)
  let (day, rest) ← fixedDigits? 2 (← expect? '-' rest)
  let date : Date := { year, month, day }
  if date.isValid then some (date, rest) else none

def text (date : Date) : String :=
  zeroPadded 4 date.year ++ "-" ++ zeroPadded 2 date.month ++ "-" ++ zeroPadded 2 date.day

end Date

namespace Time

/-- Whether a clock shows the time. A minute may have one second more. -/
def isValid (time : Time) : Bool := time.hour ≤ 23 && time.minute ≤ 59 && time.second ≤ 60

/-- The nanoseconds that the digits of a fraction write. Digits after the ninth do not count. -/
def nanosecondsOf (digits : List Char) : Nat :=
  natOf ((digits ++ List.replicate 9 '0').take 9)

/-- Reads the fraction of a second, if there is one, and gives what follows it. -/
def readFraction? : List Char → Option (Nat × List Char)
  | '.' :: rest =>
    let digits := rest.takeWhile Char.isDigit
    if digits.isEmpty then none else some (nanosecondsOf digits, rest.drop digits.length)
  | rest => some (0, rest)

def read? (text : List Char) : Option (Time × List Char) := do
  let (hour, rest) ← fixedDigits? 2 text
  let (minute, rest) ← fixedDigits? 2 (← expect? ':' rest)
  let (second, rest) ← fixedDigits? 2 (← expect? ':' rest)
  let (nanosecond, rest) ← readFraction? rest
  let time : Time := { hour, minute, second, nanosecond }
  if time.isValid then some (time, rest) else none

def fractionText (nanosecond : Nat) : String :=
  if nanosecond = 0 then ""
  else
    let digits := (zeroPadded 9 nanosecond).toList.reverse.dropWhile (· == '0')
    "." ++ String.ofList digits.reverse

def text (time : Time) : String :=
  zeroPadded 2 time.hour ++ ":" ++ zeroPadded 2 time.minute ++ ":" ++ zeroPadded 2 time.second ++
    fractionText time.nanosecond

end Time

namespace Offset

def read? (text : List Char) : Option Offset :=
  match text with
  | ['Z'] => some .zulu
  | ['z'] => some .zulu
  | sign :: rest => do
    if sign != '+' && sign != '-' then none
    let (hour, rest) ← fixedDigits? 2 rest
    let (minute, rest) ← fixedDigits? 2 (← expect? ':' rest)
    if 23 < hour || 59 < minute || !rest.isEmpty then none
    let count : Int := hour * 60 + minute
    return .minutes (if sign == '-' then -count else count)
  | [] => none

def text : Offset → String
  | zulu => "Z"
  | minutes count =>
    let size := count.natAbs
    (if count < 0 then "-" else "+") ++ zeroPadded 2 (size / 60) ++ ":" ++ zeroPadded 2 (size % 60)

end Offset

namespace Moment

/-- Reads the time and the offset that stand after a date. -/
def readAfterDate? (date : Date) : List Char → Option Moment
  | [] => some { date := some date }
  | mark :: rest => do
    if mark != 'T' && mark != 't' && mark != ' ' then none
    let (time, rest) ← Time.read? rest
    let moment : Moment := { date := some date, time := some time }
    if rest.isEmpty then return moment
    return { moment with offset := some (← Offset.read? rest) }

def read? (text : List Char) : Option Moment :=
  match Date.read? text with
  | some (date, rest) => readAfterDate? date rest
  | none =>
    match Time.read? text with
    | some (time, []) => some { time := some time }
    | _ => none

/-- The moment as a text, with a letter between the date and the time. -/
def text (moment : Moment) : String :=
  String.intercalate "T" ((moment.date.map Date.text).toList ++ (moment.time.map Time.text).toList) ++
    (moment.offset.map Offset.text).getD ""

/-- The key that a moment has where it counts as a table. -/
def key : String := "$__toml_private_datetime"

end Moment

end AccessibleMarkup.Toml
