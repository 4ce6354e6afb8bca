/-! # The tree of a TOML document

A table remembers how it came to be, because that decides whether a later line may still add to it:
a table written between braces is closed, and a dotted key cannot add to a table with a header of
its own.
-/

namespace RelayUpkeep.Toml

inductive Origin
  | header
  | implied
  | dotted
  | braces
  deriving DecidableEq, Repr

/-- Of floats and dates only the kind is kept. -/
inductive Node
  | string (text : String)
  | integer (value : Int)
  | boolean (value : Bool)
  | float
  | date
  | array (items : List Node)
  | table (origin : Origin) (entries : List (String × Node))
  | tables (items : List (List (String × Node)))

abbrev Entries := List (String × Node)

namespace Entries

def find? (es : Entries) (key : String) : Option Node :=
  List.lookup key es

/-- Replace the node of a key, or add the key at the end. -/
def put (key : String) (node : Node) : Entries → Entries
  | [] => [(key, node)]
  | (k, n) :: rest => if k = key then (key, node) :: rest else (k, n) :: put key node rest

/-- Change the table at the end of a path, making the tables on the way. A dotted key stops at a
table with a header; every path stops at a node that is no table, and goes through an array of
tables by its last one. -/
def updateAt (dotted : Bool) (change : Origin → Entries → Option Entries) :
    List String → Origin → Entries → Option Entries
  | [], origin, es => change origin es
  | key :: path, _, es =>
    match es.find? key with
    | none => do
      let origin : Origin := if dotted then .dotted else .implied
      let child ← updateAt dotted change path origin []
      return es.put key (.table origin child)
    | some (.table origin sub) =>
      if origin = .braces ∨ (dotted ∧ origin = .header) then none
      else do
        let child ← updateAt dotted change path origin sub
        return es.put key (.table origin child)
    | some (.tables items) => do
      let last ← items.getLast?
      let child ← updateAt dotted change path .header last
      return es.put key (.tables (items.dropLast ++ [child]))
    | some _ => none

/-- Give a key of a table its value. No key has two values, and the last table of a dotted key is
one that dotted keys made. -/
def assign (path : List String) (key : String) (value : Node) (origin : Origin) (es : Entries) :
    Option Entries :=
  updateAt true
    (fun last sub =>
      if (last == .dotted) == path.isEmpty then none
      else if (sub.find? key).isSome then none
      else some (sub ++ [(key, value)]))
    path origin es

/-- Begin the table that a header names. A header may name a table that only stood on the way to
another, and no other table twice. -/
def open? (path : List String) (key : String) (es : Entries) : Option Entries :=
  updateAt false
    (fun _ sub =>
      match sub.find? key with
      | none => some (sub ++ [(key, .table .header [])])
      | some (.table .implied inner) => some (sub.put key (.table .header inner))
      | some _ => none)
    path .header es

/-- Begin one more table of an array of tables. -/
def append? (path : List String) (key : String) (es : Entries) : Option Entries :=
  updateAt false
    (fun _ sub =>
      match sub.find? key with
      | none => some (sub ++ [(key, .tables [[]])])
      | some (.tables items) => some (sub.put key (.tables (items ++ [[]])))
      | some _ => none)
    path .header es

end Entries

end RelayUpkeep.Toml
