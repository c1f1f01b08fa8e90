import StagedSql.Error
import StagedSql.Lists
import StagedSql.Value.Basic

/-!
Changes: what an insert or an update writes.
-/

namespace StagedSql

mutual

/-- What is written into a column. -/
inductive Change where
  | value (v : Value)
  /-- The key of a row that is inserted first; for a forward column. -/
  | nested (changes : Changes)
  | query (h : Handle)
  /-- Rows that are inserted and refer back; for a reverse column. -/
  | many (rows : List Changes)

/-- What an insert or an update writes: a change for each column, or the rows of a query. -/
structure Changes where
  entries : List (String × Change)
  source : Option Handle

end

namespace Changes

/-- No change. -/
def empty : Changes := ⟨[], none⟩

instance : Inhabited Changes := ⟨empty⟩

/-- The change of a column, in the order of first addition. -/
def put (c : Changes) (column : String) (change : Change) : Changes :=
  { c with entries := putKey column change c.entries }

/-- The whole rows of a query. -/
def ofQuery (h : Handle) : Changes := ⟨[], some h⟩

/-- Whether a column is changed. -/
def contains (c : Changes) (column : String) : Bool := hasKey c.entries column

/-- Whether nothing is written. -/
def isEmpty (c : Changes) : Bool := c.entries.isEmpty && c.source.isNone

/-! ### From JSON -/

def isObject : Json → Bool
  | .obj _ => true
  | _ => false

mutual

/-- The change that a document stands for: an object is a row to insert first, a list of objects
is rows that refer back, and anything else is a value. -/
def changeOfJson : Json → Change
  | .obj members => .nested ⟨entriesOfJson members, none⟩
  | .arr items =>
      if !items.isEmpty && items.all isObject then .many (rowsOfJson items)
      else .value (Value.ofJson (.arr items))
  | j => .value (Value.ofJson j)

def rowsOfJson : List Json → List Changes
  | [] => []
  | .obj members :: rest => ⟨entriesOfJson members, none⟩ :: rowsOfJson rest
  | _ :: rest => rowsOfJson rest

/-- The changes of the columns that an object names. -/
def entriesOfJson : List (String × Json) → List (String × Change)
  | [] => []
  | (column, j) :: rest => (column, changeOfJson j) :: entriesOfJson rest

end

/-- The changes that a JSON object stands for. -/
def ofJsonMembers (members : List (String × Json)) : Changes :=
  ⟨ofEntries (entriesOfJson members), none⟩

end Changes

end StagedSql
