import StagedSql.Error
import StagedSql.Lists

/-!
Selections: the shape in which rows are wanted.
-/

namespace StagedSql

mutual

/-- The wanted columns and related rows, in the order of first addition. A selection without
either stands for all columns. -/
structure Selection where
  fields : List String
  lookups : List (String × Lookup)

/-- How related rows are looked up. -/
inductive Lookup where
  /-- In the given shape. -/
  | nested (selection : Selection)
  | query (h : Handle)
  /-- By following a link of a relation to itself, at most `maxDepth` times. -/
  | recursive (selection : Selection) (maxDepth : Option UInt32)

end

namespace Selection

/-- The selection of all columns. -/
def empty : Selection := ⟨[], []⟩

instance : Inhabited Selection := ⟨empty⟩

/-- Whether nothing is named. -/
def isEmpty (s : Selection) : Bool := s.fields.isEmpty && s.lookups.isEmpty

/-- Whether a name is selected. -/
def contains (s : Selection) (name : String) : Bool :=
  s.fields.contains name || hasKey s.lookups name

/-- The names, once each. -/
def names (s : Selection) : List String :=
  distinct (s.fields ++ s.lookups.map (·.1))

/-- Adds a field, unless there is a lookup of its name. -/
def addField (s : Selection) (name : String) : Selection :=
  if hasKey s.lookups name then s else { s with fields := addOnce s.fields name }

/-- Adds a lookup. A field of its name is dropped; a lookup of its name is replaced. -/
def addLookup (s : Selection) (name : String) (lookup : Lookup) : Selection :=
  ⟨s.fields.filter (· != name), putKey name lookup s.lookups⟩

/-- A selection of fields. -/
def ofFields (names : List String) : Selection :=
  names.foldl addField empty

end Selection

end StagedSql
