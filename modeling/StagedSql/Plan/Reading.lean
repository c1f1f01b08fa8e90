import StagedSql.Plan.State

/-!
What a SELECT reads.
-/

namespace StagedSql

/-- Where rows come from. -/
inductive Base where
  | relation (id : RelationId)
  | stage (name : String)
  /-- Rows that are written out, with the declared types of their columns. -/
  | values (columns : List String) (rows : List (List Value)) (types : List (Option String))
  /-- The rows of several stages that wrote to one relation. -/
  | union (members : List String) (relation : RelationId)
  /-- The table of a walk along a link. -/
  | walk (name : String) (relation : RelationId)

/-- A chain of selects and filters as one: the shape, order and page of the outermost select, and
the conditions of all filters, innermost first. -/
structure Reading where
  base : Base
  selection : Selection
  ordering : List SortKey
  limit : Option UInt64
  offset : Option UInt64
  conditions : List Condition

/-- A reading that asks nothing. -/
def Reading.ofBase (base : Base) : Reading := ⟨base, .empty, [], none, none, []⟩

/-- A base as a FROM item. -/
structure Opened where
  item : FromItem
  qualifier : String
  relation : Relation
  stage : Option String

/-- A SELECT, with what is needed to link others to its rows. -/
structure Scan where
  select : Select
  relation : Relation
  qualifier : String
  stage : Option String

/-! ### Rows that are written out -/

/-- Whether a type is one of numbers. -/
def isNumeric (type : String) : Bool := type == "bigint" || type == "double precision"

/-- The type that all types of a list share with the ones `found` before: integers and doubles
share the double, and otherwise different types share none. -/
def sharedType? : Option String → List String → Option String
  | found, [] => found
  | none, t :: rest => sharedType? (some t) rest
  | some seen, t :: rest =>
      if seen = t then sharedType? (some seen) rest
      else if isNumeric seen && isNumeric t then sharedType? (some "double precision") rest
      else none

/-- The type of a column of rows that are written out, as its values tell. -/
def valuesType? (rows : List (List Value)) (index : Nat) : Option String :=
  sharedType? none (rows.filterMap fun row => row[index]?.bind Value.sqlType?)

/-- The types of the columns: the declared ones, and otherwise those that the values tell. -/
def columnTypes (rows : List (List Value)) (declared : List (Option String)) :
    List (Option String) :=
  declared.zipIdx.map fun (type, i) => type <|> valuesType? rows i

/-- A parameter with a cast to its type. -/
def typedParam (v : Value) : Option String → Expr
  | some type => .cast (.param v) type
  | none => .param v

/-- The rows as expressions. The parameters of the first row settle the types of the columns. -/
def valueRows (types : List (Option String)) : List (List Value) → List (List Expr)
  | [] => []
  | first :: rest =>
      (first.zip types).map (fun (v, type) => typedParam v type) :: rest.map (·.map .param)

/-! ### FROM items -/

/-- The rows of a stage. -/
def stageRows (name : String) : Statement :=
  .select { Select.empty with source := some (.table name none) }

/-- A base as a FROM item, under a name that is not in the scope. -/
def openBase (schema : Schema) (base : Base) (scope : List String) : Plan Opened := do
  match base with
  | .relation id =>
      let r ← schema.relation id
      let qualifier ← Plan.qualify r.name scope
      return ⟨tableItem r.name qualifier, qualifier, r, none⟩
  | .stage name =>
      let stages := (← get).stages
      let r := match stages.find? (·.name == name) with
        | some stage => stage.relation
        | none => ⟨name, []⟩
      let qualifier ← Plan.qualify name scope
      return ⟨tableItem name qualifier, qualifier, r, some name⟩
  | .values columns rows declared =>
      let name ← Plan.freshValues
      let types := columnTypes rows declared
      let r : Relation := ⟨name, columns.map Column.scalar⟩
      return ⟨.derived (.values (valueRows types rows)) name columns, name, r, none⟩
  | .union members id =>
      let name ← Plan.freshUnion
      members.forM Plan.needAll
      let r ← schema.relation id
      return ⟨.derived (.union true (members.map stageRows)) name [], name, r, none⟩
  | .walk name id =>
      let r ← schema.relation id
      return ⟨.table name none, name, r, none⟩

/-- A selection without names reads all columns. -/
def Opened.needAllIfEmpty (o : Opened) (selection : Selection) : Plan Unit :=
  match selection.isEmpty, o.stage with
  | true, some name => Plan.needAll name
  | _, _ => pure ()

/-- The SELECT of joins and items over a base. -/
def Opened.scan (o : Opened) (joins : List Join) (items : List SelectItem) : Scan :=
  ⟨{ Select.empty with projection := items, source := some o.item, joins := joins }, o.relation,
    o.qualifier, o.stage⟩

/-- The SELECT of all columns of a base. -/
def scanAll (schema : Schema) (base : Base) (scope : List String) : Plan Scan := do
  let o ← openBase schema base scope
  o.needAllIfEmpty .empty
  return o.scan [] []

end StagedSql
