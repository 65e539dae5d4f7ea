import BoundQuery.Number.Binary

/-!
# TOML tables

A document is a table. Its lines are key and value pairs and headers; a header names the table that
the pairs behind it belong to, and a key with points in it names a table on the way. How a table
came about decides what may be added to it later: nothing to one in braces, no pairs by a second
header to one that has its own, and so on. No key is ever given two values.
-/

namespace BoundQuery
set_option autoImplicit false

/-- How a table came about. -/
inductive TableOrigin where
  | header
  | implied
  | dotted
  | inline
  deriving DecidableEq, Repr

inductive Toml where
  | string (s : String)
  | integer (n : Int)
  | float (x : Binary64)
  | boolean (b : Bool)
  | moment (s : String)
  | array (items : List Toml)
  | table (origin : TableOrigin) (entries : List (String × Toml))
  /-- The tables that share a header in double brackets. -/
  | tables (items : List (List (String × Toml)))
  deriving Repr

namespace Toml

abbrev Entries := List (String × Toml)

inductive Line where
  | pair (path : List String) (value : Toml)
  | header (path : List String)
  | repeatedHeader (path : List String)
  deriving Repr

namespace Entries

def put (key : String) (value : Toml) (entries : Entries) : Entries :=
  entries.map fun entry => if entry.1 = key then (key, value) else entry

def add? (key : String) (value : Toml) (entries : Entries) : Option Entries :=
  match entries.lookup key with
  | none => some (entries ++ [(key, value)])
  | some _ => none

/--
Gives a key with points its value. The tables on the way are new or came about by such keys; one
that is implied by a header, or the last of several with one header, may be passed, but gets no
value of its own.
-/
def define? : List String → Toml → Entries → Option Entries
  | [], _, _ => none
  | [key], value, entries => entries.add? key value
  | key :: rest, value, entries =>
    match entries.lookup key with
    | none => (define? rest value []).map fun inner => entries ++ [(key, .table .dotted inner)]
    | some (.table .dotted inner) =>
      (define? rest value inner).map fun inner => entries.put key (.table .dotted inner)
    | some (.table .implied inner) =>
      if rest.length = 1 then none
      else (define? rest value inner).map fun inner => entries.put key (.table .implied inner)
    | some (.tables items) =>
      match items.getLast? with
      | none => none
      | some inner =>
        if rest.length = 1 then none
        else
          (define? rest value inner).map fun inner =>
            entries.put key (.tables (items.dropLast ++ [inner]))
    | some _ => none

/--
Changes the table that the path of a header leads to. Missing tables are implied by the header; of
tables with one header the last is meant.
-/
def within? (change : Entries → Option Entries) : List String → Entries → Option Entries
  | [], entries => change entries
  | key :: rest, entries =>
    match entries.lookup key with
    | none => (within? change rest []).map fun inner => entries ++ [(key, .table .implied inner)]
    | some (.table .inline _) => none
    | some (.table origin inner) =>
      (within? change rest inner).map fun inner => entries.put key (.table origin inner)
    | some (.tables items) =>
      match items.getLast? with
      | none => none
      | some inner =>
        (within? change rest inner).map fun inner =>
          entries.put key (.tables (items.dropLast ++ [inner]))
    | some _ => none

/-- Begins the table of a header: a new one, or one that so far is only implied. -/
def begin? (key : String) (entries : Entries) : Option Entries :=
  match entries.lookup key with
  | none => some (entries ++ [(key, .table .header [])])
  | some (.table .implied inner) => some (entries.put key (.table .header inner))
  | some _ => none

def beginRepeated? (key : String) (entries : Entries) : Option Entries :=
  match entries.lookup key with
  | none => some (entries ++ [(key, .tables [[]])])
  | some (.tables items) => some (entries.put key (.tables (items ++ [[]])))
  | some _ => none

def ofPairs? : List (List String × Toml) → Entries → Option Entries
  | [], entries => some entries
  | (path, value) :: rest, entries => (entries.define? path value).bind (ofPairs? rest)

/-- Applies a change to the last key of a path, in the table that the others lead to. -/
def atHeader? (change : String → Entries → Option Entries) (path : List String)
    (entries : Entries) : Option Entries :=
  match path.getLast? with
  | none => none
  | some key => within? (change key) path.dropLast entries

/-- The table that lines make up, behind the header with the path `current`. -/
def ofLines? : List Line → List String → Entries → Option Entries
  | [], _, entries => some entries
  | .pair path value :: rest, current, entries =>
    (within? (define? path value) current entries).bind (ofLines? rest current)
  | .header path :: rest, _, entries => (atHeader? begin? path entries).bind (ofLines? rest path)
  | .repeatedHeader path :: rest, _, entries =>
    (atHeader? beginRepeated? path entries).bind (ofLines? rest path)

end Entries

end Toml

end BoundQuery
