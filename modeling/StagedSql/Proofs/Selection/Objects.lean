import StagedSql.Proofs.Schema.Accepted
import StagedSql.Proofs.Sql.Evaluation
import StagedSql.Selection.Basic

/-!
What a selection shows of a row.

A selection of fields and nested lookups is a tree. What it shows of a row is a JSON object, which
is defined here by recursion on the tree and without any SQL (`Selection.object`).
-/

namespace StagedSql

/-! ### Contents -/

/-- The contents of the tables, by the names of relations: rows that give every column a value. -/
structure Database where
  rows : String → List (String → Value)

/-- A row of the table of a relation. -/
def Relation.row (r : Relation) (values : String → Value) : Row :=
  r.storedNames.map fun c => (c, values c)

namespace Database

def table (db : Database) (r : Relation) : Table :=
  ⟨r.storedNames, (db.rows r.name).map r.row⟩

def tables (db : Database) (s : Schema) : Tables := fun name => (s.get? name).map db.table

/-- The rows of a relation in which a column is equal to a value. -/
def linked (ops : Operators) (db : Database) (r : Relation) (column : String) (v : Value) :
    List (String → Value) :=
  (db.rows r.name).filter fun row => ops.same (row column) v

/-- **Unique primary keys**: no two rows of a relation are equal in its primary key. -/
def Keyed (ops : Operators) (s : Schema) (db : Database) : Prop :=
  ∀ r ∈ s.relations,
    (db.rows r.name).Pairwise fun a b => ops.same (a r.primaryKey) (b r.primaryKey) = false

end Database

/-! ### Trees -/

mutual

/-- Whether all lookups of a selection are nested ones, at any depth. -/
def Selection.IsTree : Selection → Prop
  | ⟨_, lookups⟩ => Lookup.AreTrees lookups

/-- Whether a lookup is a nested one, at any depth. -/
def Lookup.IsTree : Lookup → Prop
  | .nested s => s.IsTree
  | .query _ => False
  | .recursive _ _ => False

def Lookup.AreTrees : List (String × Lookup) → Prop
  | [] => True
  | (_, l) :: rest => l.IsTree ∧ Lookup.AreTrees rest

end

/-! ### Objects -/

section Objects

variable (ops : Operators) (schema : Schema) (db : Database)

/-- What a column that leads to other rows shows, given what is shown of each of them: that of the
one row that a forward column refers to, or null if there is none, and for a reverse column the
array of all rows that refer back. -/
def relatedJson (r : Relation) (values : String → Value) (name : String)
    (shown : Relation → (String → Value) → Json) : Json :=
  match (r.column? name).map Column.kind with
  | some (.forward target) =>
    match schema.get? target with
    | some t =>
      match db.linked ops t t.primaryKey (values name) with
      | [row] => shown t row
      | _ => .null
    | none => .null
  | some (.reverse target via) =>
    match schema.get? target with
    | some t => .arr ((db.linked ops t via (values r.primaryKey)).map (shown t))
    | none => .null
  | _ => .null

/-- All stored columns of a row. -/
def wholeObject (r : Relation) (values : String → Value) : Json := (r.row values).toJson

/-- What a field shows: its value, and for a reverse column the whole rows that refer back. -/
def fieldJson (r : Relation) (values : String → Value) (name : String) : Json :=
  if ((r.column? name).map Column.isReverse).getD false then
    relatedJson ops schema db r values name wholeObject
  else (values name).toJson

mutual

/-- **The object that a selection shows of a row of a relation**: all stored columns if nothing is
named, and otherwise the fields and then the lookups under their names. -/
def Selection.object (r : Relation) (values : String → Value) : Selection → Json
  | ⟨fields, lookups⟩ =>
    if fields.isEmpty && lookups.isEmpty then wholeObject r values
    else .obj (fields.map (fun name => (name, fieldJson ops schema db r values name)) ++
      Lookup.members r values lookups)

/-- The members of the object that lookups give. -/
def Lookup.members (r : Relation) (values : String → Value) :
    List (String × Lookup) → List (String × Json)
  | [] => []
  | (name, l) :: rest => (name, Lookup.json r values name l) :: Lookup.members r values rest

/-- What a nested lookup shows. -/
def Lookup.json (r : Relation) (values : String → Value) (name : String) : Lookup → Json
  | .nested s => relatedJson ops schema db r values name fun t row => s.object t row
  | _ => .null

end

end Objects

end StagedSql
