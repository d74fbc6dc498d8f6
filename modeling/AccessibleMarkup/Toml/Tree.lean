import AccessibleMarkup.Toml.Value

/-! The tables of a TOML document while it is read. Tables remember how they came to be, because a
header must not define a table twice and dotted keys must not add to a table that a header
defined. -/
namespace AccessibleMarkup.Toml

/-- How a table came to be. -/
inductive TableOrigin where
  /-- By a header of its own. -/
  | header
  /-- By a header of a table in it. -/
  | implied
  /-- By a dotted key. -/
  | dotted
  deriving DecidableEq, Repr

/-- What a key of an unfinished table stands for. -/
inductive Slot where
  | leaf (value : Value)
  | table (origin : TableOrigin) (entries : List (String × Slot))
  /-- An array of tables, each with its own header. -/
  | tables (items : List (List (String × Slot)))
  deriving Inhabited

abbrev Entries := List (String × Slot)

namespace Slot

def replace (entries : Entries) (key : String) (slot : Slot) : Entries :=
  entries.map fun entry => if entry.1 == key then (key, slot) else entry

/-- Changes the table that a path leads to. Tables on the way that are missing are made; a value
on the way is an error, and so is, on the way of a dotted key, a table with a header. -/
def alter (viaDottedKey : Bool) (change : TableOrigin → Entries → Option Entries) :
    List String → TableOrigin → Entries → Option Entries
  | [], origin, entries => change origin entries
  | key :: path, _, entries =>
    match entries.lookup key with
    | none =>
      let origin := if viaDottedKey then .dotted else .implied
      (alter viaDottedKey change path origin []).map fun inner =>
        entries ++ [(key, .table origin inner)]
    | some (.leaf _) => none
    | some (.tables items) =>
      items.getLast?.bind fun last =>
        (alter viaDottedKey change path .header last).map fun inner =>
          replace entries key (.tables (items.dropLast ++ [inner]))
    | some (.table origin inner) =>
      if viaDottedKey && origin = .header then none
      else (alter viaDottedKey change path origin inner).map fun changed =>
        replace entries key (.table origin changed)

/-- Adds a value under a dotted key to a table. A key that is taken, or a dotted key into a table
that did not come to be by one, is an error. -/
def addKey (path : List String) (key : String) (value : Value) (origin : TableOrigin)
    (entries : Entries) : Option Entries :=
  alter true (fun found inner =>
    if decide (found = .dotted) = path.isEmpty || (inner.lookup key).isSome then none
    else some (inner ++ [(key, .leaf value)])) path origin entries

def addUnder (header : List String) (path : List String) (key : String) (value : Value)
    (root : Entries) : Option Entries :=
  alter false (addKey path key value) header .header root

def openTable (path : List String) (key : String) (root : Entries) : Option Entries :=
  alter false (fun _ entries =>
    match entries.lookup key with
    | none => some (entries ++ [(key, .table .header [])])
    | some (.table .implied inner) => some (replace entries key (.table .header inner))
    | _ => none) path .header root

def openArrayTable (path : List String) (key : String) (root : Entries) : Option Entries :=
  alter false (fun _ entries =>
    match entries.lookup key with
    | none => some (entries ++ [(key, .tables [[]])])
    | some (.tables items) => some (replace entries key (.tables (items ++ [[]])))
    | _ => none) path .header root

mutual

def toValue : Slot → Value
  | leaf value => value
  | table _ entries => .table (toEntries entries)
  | tables items => .array (toTables items)

def toEntries : List (String × Slot) → List (String × Value)
  | [] => []
  | (key, slot) :: rest => (key, slot.toValue) :: toEntries rest

def toTables : List (List (String × Slot)) → List Value
  | [] => []
  | entries :: rest => .table (toEntries entries) :: toTables rest

end

end Slot

end AccessibleMarkup.Toml
