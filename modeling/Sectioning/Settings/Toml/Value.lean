/-
TOML values, and how the statements of a document build its tables.

A table remembers how it came about, because this decides what may be added to it
later.  A key may be set once.  A header may name a table that so far was only on
the way to others, and no other table that exists.  A dotted key may add to tables
that dotted keys have made.  What is written in braces is complete.
-/

namespace Sectioning
namespace Toml

/-- How a table came about. -/
inductive Origin where
  /-- Named by a header, or the document itself. -/
  | header
  /-- On the way to a table that a header names. -/
  | way
  /-- On the way to a key that is written with dots. -/
  | dotted
  /-- Written in braces. -/
  | inline
  deriving DecidableEq

inductive Value where
  | string (s : String)
  | integer (n : Int)
  /-- A number with a fraction or an exponent, as it is written. -/
  | float (text : String)
  | boolean (b : Bool)
  /-- A date, a time, or both, as it is written. -/
  | moment (text : String)
  | array (values : List Value)
  | table (origin : Origin) (entries : List (String × Value))
  /-- The tables of the headers in double brackets with one name. -/
  | tables (all : List (List (String × Value)))

abbrev Entries := List (String × Value)

namespace Entries

def get? (entries : Entries) (key : String) : Option Value :=
  (entries.find? fun e => e.1 == key).map (·.2)

/-- Puts a value under a key, in place of the one that is there. -/
def set (entries : Entries) (key : String) (v : Value) : Entries :=
  if (entries.get? key).isSome then entries.map fun e => if e.1 == key then (key, v) else e
  else entries ++ [(key, v)]

/-- Sets `key` in the table that the dotted `way` leads to. -/
def assign (v : Value) (key : String) : List String → Entries → Option Entries
  | [], entries => if (entries.get? key).isSome then none else some (entries ++ [(key, v)])
  | k :: way, entries =>
    match entries.get? k with
    | none => (assign v key way []).map fun inner => entries.set k (.table .dotted inner)
    | some (.table .dotted inner) =>
      (assign v key way inner).map fun inner => entries.set k (.table .dotted inner)
    | some (.table .way inner) =>
      if way.isEmpty then none
      else (assign v key way inner).map fun inner => entries.set k (.table .way inner)
    | some (.tables all) =>
      if way.isEmpty then none
      else
        (assign v key way (all.getLastD [])).map fun inner =>
          entries.set k (.tables (all.dropLast ++ [inner]))
    | some _ => none

/-- Changes the table that the names of headers lead to.  Missing tables on the
way are made, and of several tables under one name the last is meant. -/
def within (change : Entries → Option Entries) : List String → Entries → Option Entries
  | [], entries => change entries
  | k :: way, entries =>
    match entries.get? k with
    | none => (within change way []).map fun inner => entries.set k (.table .way inner)
    | some (.table .inline _) => none
    | some (.table origin inner) =>
      (within change way inner).map fun inner => entries.set k (.table origin inner)
    | some (.tables all) =>
      (within change way (all.getLastD [])).map fun inner =>
        entries.set k (.tables (all.dropLast ++ [inner]))
    | some _ => none

/-- What the header of a table does to the table that is to hold it. -/
def header (key : String) (entries : Entries) : Option Entries :=
  match entries.get? key with
  | none => some (entries.set key (.table .header []))
  | some (.table .way inner) => some (entries.set key (.table .header inner))
  | some _ => none

/-- What a header in double brackets does to the table that is to hold it. -/
def arrayHeader (key : String) (entries : Entries) : Option Entries :=
  match entries.get? key with
  | none => some (entries.set key (.tables [[]]))
  | some (.tables all) => some (entries.set key (.tables (all ++ [[]])))
  | some _ => none

end Entries
end Toml
end Sectioning
