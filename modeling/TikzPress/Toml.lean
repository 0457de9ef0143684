import TikzPress.Table

/-!
Values of a configuration text and the tables that they are gathered in. A table remembers how it came
about, for that decides what may still be added to it.
-/

namespace TikzPress.Toml

-- A table came about as a part of the name in a header, as a part of a dotted key, by a header of its own (or as
-- the whole text), or between braces.
inductive Origin where
  | headerPart
  | keyPart
  | header
  | inline
  deriving DecidableEq, Repr

-- Numbers with a fraction, and dates and times, are kept as they are written; `tables` is an array that grows by
-- one table with each of its headers.
inductive Value where
  | string (t : Text)
  | integer (n : Int)
  | float (t : Text)
  | boolean (b : Bool)
  | dateTime (t : Text)
  | array (items : List Value)
  | table (origin : Origin) (entries : List (Text × Value))
  | tables (items : List (List (Text × Value)))
  deriving Inhabited

-- The values in an array, however it came about.
def Value.items? : Value → Option (List Value)
  | array items => some items
  | tables items => some (items.map (table .header))
  | _ => none

abbrev Entries := Table Value

namespace Entries

def add? (key : Text) (value : Value) (entries : Entries) : Option Entries :=
  if Table.hasKey key entries then none else some (Table.put key value entries)

-- The tables on the way are made if need be; of an array of tables the last one is meant.
def atHeader (change : Entries → Option Entries) : List Text → Entries → Option Entries
  | [], entries => change entries
  | key :: keys, entries =>
    match Table.get? key entries with
    | none => do return Table.put key (.table .headerPart (← atHeader change keys [])) entries
    | some (.table .inline _) => none
    | some (.table origin inner) => do
      return Table.put key (.table origin (← atHeader change keys inner)) entries
    | some (.tables items) =>
      match items.reverse with
      | [] => none
      | last :: earlier => do
        return Table.put key (.tables (earlier.reverse ++ [← atHeader change keys last])) entries
    | some _ => none

-- The tables on the way are made if need be; those made otherwise than by a dotted key take no value.
def assign? (key : Text) (value : Value) : List Text → Entries → Option Entries
  | [], entries => add? key value entries
  | part :: parts, entries =>
    match Table.get? part entries with
    | none => do return Table.put part (.table .keyPart (← assign? key value parts [])) entries
    | some (.table .keyPart inner) => do
      return Table.put part (.table .keyPart (← assign? key value parts inner)) entries
    | some (.table .headerPart inner) =>
      if parts = [] then none
      else do return Table.put part (.table .headerPart (← assign? key value parts inner)) entries
    | some (.tables items) =>
      match items.reverse with
      | [] => none
      | last :: earlier =>
        if parts = [] then none
        else do
          return Table.put part (.tables (earlier.reverse ++ [← assign? key value parts last])) entries
    | some _ => none

-- A table that came about as a part of other headers may be opened once.
def openTable? (key : Text) (entries : Entries) : Option Entries :=
  match Table.get? key entries with
  | none => some (Table.put key (.table .header []) entries)
  | some (.table .headerPart inner) => some (Table.put key (.table .header inner) entries)
  | some _ => none

def openItem? (key : Text) (entries : Entries) : Option Entries :=
  match Table.get? key entries with
  | none => some (Table.put key (.tables [[]]) entries)
  | some (.tables items) => some (Table.put key (.tables (items ++ [[]])) entries)
  | some _ => none

end Entries

-- A dotted key is its last part and the parts before it.
inductive Statement where
  | openTable (parts : List Text) (key : Text)
  | openItem (parts : List Text) (key : Text)
  | assign (parts : List Text) (key : Text) (value : Value)

def gather (place : List Text) (entries : Entries) : List Statement → Option Entries
  | [] => some entries
  | .openTable parts key :: rest => do
    gather (parts ++ [key]) (← entries.atHeader (Entries.openTable? key) parts) rest
  | .openItem parts key :: rest => do
    gather (parts ++ [key]) (← entries.atHeader (Entries.openItem? key) parts) rest
  | .assign parts key value :: rest => do
    gather place (← entries.atHeader (Entries.assign? key value parts) place) rest

end TikzPress.Toml
