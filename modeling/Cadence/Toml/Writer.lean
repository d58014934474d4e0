import Cadence.Toml.Number

/-!
Writes tables of plain values: a header for each table, a line for each entry and an empty line between tables.
-/

namespace Cadence.Toml

/-- An integer that fits 64 bits, or a truth value; others are not written. -/
def writePlain : Value → Option String
  | .integer n => if isInt64 n then some (toString n) else none
  | .boolean true => some "true"
  | .boolean false => some "false"
  | _ => none

def writeEntry (name : String) (value : Value) : Option String :=
  (writePlain value).map fun text => s!"{name} = {text}\n"

def writeTable (name : String) (entries : List (String × Value)) : Option String :=
  (entries.mapM fun (name, value) => writeEntry name value).map fun lines => s!"[{name}]\n{String.join lines}"

def writeTables (tables : List (String × List (String × Value))) : Option String :=
  (tables.mapM fun (name, entries) => writeTable name entries).map (String.intercalate "\n")

end Cadence.Toml
