import AccessibleMarkup.Toml.Moment

/-! Values of TOML documents. -/
namespace AccessibleMarkup.Toml

inductive Value where
  | string (text : String)
  | integer (number : Int)
  | float (number : Float)
  | boolean (truth : Bool)
  | moment (written : Moment)
  | array (items : List Value)
  | table (entries : List (String × Value))
  deriving Inhabited

namespace Value

def asString? : Value → Option String
  | string text => some text
  | _ => none

def asInteger? : Value → Option Int
  | integer number => some number
  | _ => none

def asBoolean? : Value → Option Bool
  | boolean truth => some truth
  | _ => none

def asArray? : Value → Option (List Value)
  | array items => some items
  | _ => none

/-- The entries of a table. A moment counts as a table with its text as the only entry. -/
def asTable? : Value → Option (List (String × Value))
  | table entries => some entries
  | moment written => some [(Moment.key, string written.text)]
  | _ => none

def asStrings? (value : Value) : Option (List String) := value.asArray?.bind (·.mapM asString?)

/-- The moment that a table stands for whose first key is that of moments. Such a table has no other
entry. -/
def momentOf? : List (String × Value) → Option Value
  | [(_, string text)] => (Moment.read? text.toList).map moment
  | _ => none

mutual

/-- The value with moments in place of the tables that stand for them, unless one of those is
malformed. -/
def withMoments? : Value → Option Value
  | array items => (itemsWithMoments? items).map array
  | table [] => some (table [])
  | table ((key, value) :: rest) =>
    if key = Moment.key then momentOf? ((key, value) :: rest)
    else (entriesWithMoments? ((key, value) :: rest)).map table
  | value => some value

def itemsWithMoments? : List Value → Option (List Value)
  | [] => some []
  | value :: rest => do return (← withMoments? value) :: (← itemsWithMoments? rest)

/-- The entries of a table with moments in place of the tables that stand for them. -/
def entriesWithMoments? : List (String × Value) → Option (List (String × Value))
  | [] => some []
  | (key, value) :: rest => do
    return (key, ← withMoments? value) :: (← entriesWithMoments? rest)

end

end Value

end AccessibleMarkup.Toml
