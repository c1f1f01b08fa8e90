import StagedSql.Error
import StagedSql.Text.Identifier

/-!
Relations and schemas. A column is stored, or refers to a row of another relation, or stands for the
rows of another relation that refer to this one.
-/

namespace StagedSql

/-! ### Relations -/

/-- What a column holds. -/
inductive ColumnKind where
  | scalar
  /-- The primary key of a row of `relation`. -/
  | forward (relation : String)
  /-- Nothing stored: the rows of `relation` whose `column` holds this row's primary key. -/
  | reverse (relation column : String)
  deriving DecidableEq

/-- A column of a relation. -/
structure Column where
  name : String
  nullable : Bool
  unique : Bool
  primaryKey : Bool
  kind : ColumnKind
  /-- The declared type, for parameters whose type nothing else tells. -/
  type? : Option String
  deriving DecidableEq

namespace Column

/-- A stored column. -/
def scalar (name : String) : Column :=
  ⟨name, false, false, false, .scalar, none⟩

/-- A primary key. -/
def primary (name : String) : Column :=
  ⟨name, false, true, true, .scalar, none⟩

/-- A column that refers to a row of a relation. -/
def forward (name relation : String) : Column :=
  ⟨name, false, false, false, .forward relation, none⟩

/-- The rows of a relation that refer back through a column. -/
def reverse (name relation column : String) : Column :=
  ⟨name, true, false, false, .reverse relation column, none⟩

/-- The relation that a column leads to. -/
def related? (c : Column) : Option String :=
  match c.kind with
  | .scalar => none
  | .forward relation => some relation
  | .reverse relation _ => some relation

/-- Whether a column refers to a row. -/
def isForward (c : Column) : Bool :=
  match c.kind with
  | .forward _ => true
  | _ => false

/-- Whether a column stands for rows that refer back. -/
def isReverse (c : Column) : Bool :=
  match c.kind with
  | .reverse .. => true
  | _ => false

end Column

/-- A table with its columns in order. -/
structure Relation where
  name : String
  columns : List Column
  deriving DecidableEq

namespace Relation

/-- The name of the first column marked as primary key, and `id` if there is none. -/
def primaryKey (r : Relation) : String :=
  match r.columns.find? (·.primaryKey) with
  | some c => c.name
  | none => "id"

/-- The column of a name. -/
def column? (r : Relation) (name : String) : Option Column :=
  r.columns.find? (·.name == name)

/-- The column of a name, or an error. -/
def column (r : Relation) (name : String) : Except Error Column :=
  match r.column? name with
  | some c => .ok c
  | none => .error (.unknownColumn name r.name)

end Relation

/-! ### Schemas -/

/-- Names a relation of one of several schemas by its place. -/
structure RelationId where
  schema : Nat
  index : Nat
  deriving DecidableEq

/-- The relations that queries may touch. The `id` tells the relations of one schema from those of
another. -/
structure Schema where
  id : Nat
  relations : List Relation

/-- Whether a column refers to a relation. -/
def Relation.refersTo (r : Relation) (column target : String) : Bool :=
  match r.column? column with
  | some c => c.kind == .forward target
  | none => false

namespace Schema

/-- The identity of a relation. -/
def lookup? (s : Schema) (name : String) : Option RelationId :=
  (s.relations.findIdx? (·.name == name)).map fun i => ⟨s.id, i⟩

/-- The relation of a name. -/
def get? (s : Schema) (name : String) : Option Relation :=
  s.relations.find? (·.name == name)

/-- The identity of a relation, or an error. -/
def resolve (s : Schema) (name : String) : Except Error RelationId :=
  match s.lookup? name with
  | some id => .ok id
  | none => .error (.unknownRelation name)

/-- The relation of an identity. Those of other schemas are refused. -/
def relation (s : Schema) (id : RelationId) : Except Error Relation :=
  if id.schema = s.id then
    match s.relations[id.index]? with
    | some r => .ok r
    | none => .error (.foreignRelation id.index)
  else .error (.foreignRelation id.index)

/-! ### Checks -/

/-- The first name that was seen before. -/
def repeated? : List String → List String → Option String
  | _, [] => none
  | seen, name :: rest =>
      if seen.contains name then some name else repeated? (name :: seen) rest

/-- Checks that no column has the name of an earlier one, and that declared types are types. -/
def checkColumns (relation : String) : List String → List Column → Except SchemaIssue Unit
  | _, [] => .ok ()
  | seen, c :: rest => do
      if seen.contains c.name then throw (.duplicateColumn relation c.name)
      match c.type? with
      | some t => if !isTypeName t then throw (.invalidType relation c.name t)
      | none => pure ()
      checkColumns relation (c.name :: seen) rest

/-- Checks that a relation has one primary key, which is one of its columns. -/
def checkPrimaryKey (r : Relation) : Except SchemaIssue Unit := do
  if 1 < (r.columns.filter (·.primaryKey)).length then throw (.severalPrimaryKeys r.name)
  if (r.column? r.primaryKey).isNone then throw (.missingPrimaryKey r.name r.primaryKey)

/-- Checks that a column's link leads somewhere, and back for a reverse column. -/
def checkLink (s : Schema) (r : Relation) (c : Column) : Except SchemaIssue Unit :=
  match c.kind with
  | .scalar => .ok ()
  | .forward target =>
      if (s.get? target).isNone then .error (.unknownReference r.name c.name target) else .ok ()
  | .reverse target via =>
      match s.get? target with
      | none => .error (.unknownReverse r.name c.name target)
      | some related =>
          if related.refersTo via r.name then .ok ()
          else .error (.unlinkedReverse r.name c.name target via)

/-- Checks a relation: its columns, its primary key, its links. -/
def checkRelation (s : Schema) (r : Relation) : Except SchemaIssue Unit := do
  checkColumns r.name [] r.columns
  checkPrimaryKey r
  r.columns.forM (s.checkLink r)

/-- Checks all relations. -/
def check (s : Schema) : Except SchemaIssue Unit :=
  s.relations.forM s.checkRelation

/-- The schema of a list of relations, if they fit together. -/
def ofRelations (id : Nat) (relations : List Relation) : Except Error Schema :=
  let s : Schema := ⟨id, relations⟩
  match repeated? [] (relations.map (·.name)) with
  | some name => .error (.invalidSchema (.duplicateRelation name))
  | none =>
      match s.check with
      | .ok _ => .ok s
      | .error issue => .error (.invalidSchema issue)

end Schema

end StagedSql
