import FlowAtlas.Decimal.Double

/-!
# TOML values

A TOML document is a table. A table remembers how it came about, because the
notation allows a table to be extended in some ways and not in others: one that
only lies on the way to another may still get a header of its own, one written
with dotted keys takes more dotted keys, and one with a header or between braces
is complete.
-/

namespace FlowAtlas.Toml

open Decimal (Double)

/-- How a table came about. -/
inductive Origin where
  /-- It has a header of its own, or is the document. -/
  | header
  /-- It lies on the way to a table with a header. -/
  | passed
  /-- It lies on the way to a value with a dotted key. -/
  | dotted
  /-- It stands between braces. -/
  | inline
  deriving DecidableEq, Repr

/-- A value. Of a date or a time only the fact matters that it is one. -/
inductive Value where
  | string (s : String)
  | integer (n : Int)
  | float (d : Double)
  | boolean (b : Bool)
  | datetime
  | array (items : List Value)
  | table (origin : Origin) (entries : List (String × Value))
  /-- Tables that share a header between double brackets, each with its
  entries. -/
  | tables (elements : List (List (String × Value)))
  deriving Repr, Inhabited

/-- The entries of a table, in the order in which their keys appeared. -/
abbrev Entries := List (String × Value)

/-- Replaces the value of a key where it stands, or adds the key at the end. -/
def Entries.set (key : String) (value : Value) : Entries → Entries
  | [] => [(key, value)]
  | (k, v) :: rest =>
    if k = key then (key, value) :: rest
    else (k, v) :: Entries.set key value rest

/-- The entries without a key. -/
def Entries.erase (key : String) (entries : Entries) : Entries :=
  entries.filter fun e => e.1 ≠ key

/-- Adds a key that must not be there. -/
def Entries.add? (key : String) (value : Value) (entries : Entries) :
    Option Entries :=
  if (entries.lookup key).isSome then none else some (entries ++ [(key, value)])

/-- Changes the table at the end of a way of keys, making the tables that are
missing on it. A way of dotted keys may not pass through a table that is
complete. -/
def Entries.updateAt (dotted : Bool) (origin : Origin) (entries : Entries)
    (change : Origin → Entries → Option Entries) : List String → Option Entries
  | [] => change origin entries
  | key :: keys =>
    match entries.lookup key with
    | none => do
      let made := if dotted then Origin.dotted else Origin.passed
      let inner ← Entries.updateAt dotted made [] change keys
      pure (entries.set key (.table made inner))
    | some (.table .inline _) => none
    | some (.table o inner) =>
      if dotted && o = .header then none
      else do
        let inner ← Entries.updateAt dotted o inner change keys
        pure (entries.set key (.table o inner))
    | some (.tables elements) =>
      match elements.reverse with
      | [] => none
      | last :: before => do
        let last ← Entries.updateAt dotted .header last change keys
        pure (entries.set key (.tables (before.reverse ++ [last])))
    | some _ => none

/-- Sets the value of a dotted key in a table. The table that gets the value
must have been written with dotted keys, unless it is the one at hand. -/
def Entries.setDotted? (entries : Entries) (way : List String) (key : String)
    (value : Value) : Option Entries :=
  Entries.updateAt true .header entries
    (fun origin inner =>
      if way.isEmpty || origin = .dotted then inner.add? key value
      else none) way

end FlowAtlas.Toml
