import Cadence.Toml.Value

/-!
The tables of a document while it is put together. A table remembers how it came about, which decides what may still
be added to it: one with a header of its own is not opened again and not extended by a dotted key, one that exists
only because a deeper header names it may still get its header, and one made by a dotted key gets none.
-/

namespace Cadence.Toml

inductive Origin
  | header
  | path
  | dotted
  deriving DecidableEq

/-- A list of tables is never empty; `last` is the one that was opened last. -/
inductive Node
  | value (value : Value)
  | table (origin : Origin) (entries : List (String × Node))
  | tables (before : List (List (String × Node))) (last : List (String × Node))

abbrev Entries : Type := List (String × Node)

namespace Entries

/-- Puts a node under a name, at the place of the name's former node if there is one. -/
def put (name : String) (node : Node) : Entries → Entries
  | [] => [(name, node)]
  | (other, old) :: rest => if other = name then (name, node) :: rest else (other, old) :: put name node rest

/-- Enters a value under a dotted key. Every table on its path is new or came about by a path or a dotted key, and
the table that gets the value by a dotted key. -/
def assign (name : String) (value : Value) : List String → Entries → Option Entries
  | [], entries => if (entries.lookup name).isSome then none else some (entries.put name (.value value))
  | part :: path, entries =>
    match entries.lookup part with
    | none => (assign name value path []).map fun sub => entries.put part (.table .dotted sub)
    | some (.value _) => none
    | some (.table origin sub) =>
      if origin = .header || (path.isEmpty && origin ≠ .dotted) then none
      else (assign name value path sub).map fun sub => entries.put part (.table origin sub)
    | some (.tables before last) =>
      if path.isEmpty then none
      else (assign name value path last).map fun last => entries.put part (.tables before last)

/-- Changes the table at the end of a path. Tables that are missing are made; of a list of tables the last is meant. -/
def modifyAt (change : Entries → Option Entries) : List String → Entries → Option Entries
  | [], entries => change entries
  | part :: path, entries =>
    match entries.lookup part with
    | none => (modifyAt change path []).map fun sub => entries.put part (.table .path sub)
    | some (.value _) => none
    | some (.table origin sub) => (modifyAt change path sub).map fun sub => entries.put part (.table origin sub)
    | some (.tables before last) => (modifyAt change path last).map fun last => entries.put part (.tables before last)

/-- Opens the table `name` by its header. -/
def openTable (name : String) (entries : Entries) : Option Entries :=
  match entries.lookup name with
  | none => some (entries.put name (.table .header []))
  | some (.table .path sub) => some (entries.put name (.table .header sub))
  | some _ => none

/-- Opens one more table of the list `name`. -/
def appendTable (name : String) (entries : Entries) : Option Entries :=
  match entries.lookup name with
  | none => some (entries.put name (.tables [] []))
  | some (.tables before last) => some (entries.put name (.tables (before ++ [last]) []))
  | some _ => none

end Entries

mutual

def Node.toValue : Node → Value
  | .value v => v
  | .table _ entries => .table (Entries.toValues entries)
  | .tables before last => .array (Entries.toTables before ++ [.table (Entries.toValues last)])

def Entries.toValues : List (String × Node) → List (String × Value)
  | [] => []
  | (name, node) :: rest => (name, node.toValue) :: Entries.toValues rest

def Entries.toTables : List (List (String × Node)) → List Value
  | [] => []
  | entries :: rest => .table (Entries.toValues entries) :: Entries.toTables rest

end

/-- What the lines of a document say. -/
inductive Line
  | opens (path : List String) (name : String)
  | appends (path : List String) (name : String)
  | assigns (path : List String) (name : String) (value : Value)

/-- A document that has been read up to some line: its tables and the path of the one that is open. -/
structure Document where
  entries : Entries := []
  here : List String := []

namespace Document

def add (d : Document) : Line → Option Document
  | .opens path name =>
    (Entries.modifyAt (Entries.openTable name) path d.entries).map fun entries =>
      { entries, here := path ++ [name] }
  | .appends path name =>
    (Entries.modifyAt (Entries.appendTable name) path d.entries).map fun entries =>
      { entries, here := path ++ [name] }
  | .assigns path name value =>
    (Entries.modifyAt (Entries.assign name value path) d.here d.entries).map fun entries => { d with entries }

/-- The table that the lines of a document describe. -/
def ofLines (lines : List Line) : Option (List (String × Value)) :=
  (lines.foldlM add {}).map fun d => Entries.toValues d.entries

end Document

end Cadence.Toml
