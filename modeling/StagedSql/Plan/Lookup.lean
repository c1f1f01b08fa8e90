import StagedSql.Plan.Reading

/-!
Lookups of related rows as lateral joins.

A forward column gives one JSON object, a reverse column and a walk give an array of them.
-/

namespace StagedSql

/-- The row that related rows are linked to. -/
structure Outer where
  relation : Relation
  qualifier : String
  stage : Option String
  /-- The names that the lookup sees, that of the outer row included. -/
  scope : List String

/-- A base as an outer row. -/
def Opened.outer (o : Opened) (scope : List String) : Outer :=
  ⟨o.relation, o.qualifier, o.stage, scope ++ [o.qualifier]⟩

/-- The column of a lookup and the relation that it leads to. -/
def lookupTarget (schema : Schema) (outer : Outer) (name : String) :
    Except Error (Column × RelationId) := do
  let c ← outer.relation.column name
  match c.related? with
  | none => throw (.notARelation name outer.relation.name)
  | some target => return (c, ← schema.resolve target)

/-- The rows that a column leads to: those that this statement writes, if it does, since they are
not in the table yet, and otherwise those of the relation. -/
def relatedBase (outer : Outer) (name : String) (target : RelationId) : Plan Base := do
  match ← Plan.written? outer.stage name with
  | some members => return .union members target
  | none => return .relation target

/-- An item under a name. -/
def labelled (e : Expr) (name : String) : SelectItem := ⟨e, some name⟩

/-- The rows of a derived table as an array, an empty one if there are none. -/
def aggregateRows (rows : String) (ordering : List OrderItem) : Expr :=
  .coalesce [.arrayAgg (.rowToJson rows) ordering, .literal (.string "\x7b\x7d")]

/-- A SELECT of the rows of another one as an array. -/
def arrayOf (inner : Select) (rows : String) (ordering : List OrderItem) : Select :=
  { Select.empty with
    projection := [labelled (aggregateRows rows ordering) "value"]
    source := some (.derived (.select inner) rows []) }

/-- Links a scan to the outer row by a column, and gives what the column shows. -/
def joinRows (outer : Outer) (c : Column) (name lateral : String) (inner : Scan) :
    Plan (Join × SelectItem) := do
  match c.kind with
  | .reverse _ via =>
      let key := outer.relation.primaryKey
      Plan.need outer.stage key
      Plan.need inner.stage via
      let linked := inner.select.filter
        (.binary .eq (.of inner.qualifier via) (.of outer.qualifier key))
      let rows ← Plan.freshAggregate
      return (.leftLateral (.select (arrayOf linked rows [])) lateral,
        labelled (.of lateral "value") name)
  | _ =>
      let key := inner.relation.primaryKey
      Plan.need outer.stage name
      Plan.need inner.stage key
      let linked := inner.select.filter
        (.binary .eq (.of inner.qualifier key) (.of outer.qualifier name))
      return (.leftLateral (.select linked) lateral, labelled (.rowToJson lateral) name)

/-! ### Walks -/

/-- A walk along a link of a relation to itself. -/
structure Walk where
  table : String
  relation : RelationId
  /-- The rows that are linked to the outer row. -/
  start : Select
  /-- The rows that are linked to rows found before. -/
  step : Select

/-- The equality that links the row `next` to the row `previous` that it is reached from. -/
def walkLink (c : Column) (key next previous : String) : Expr :=
  match c.kind with
  | .reverse _ via => .binary .eq (.of next via) (.of previous key)
  | _ => .binary .eq (.of next key) (.of previous c.name)

/-- Prepares a walk from the outer row. Rows carry their depth, which starts at one and stays
below `maxDepth` before each further step. -/
def beginWalk (schema : Schema) (outer : Outer) (c : Column) (target : RelationId)
    (maxDepth : Option UInt32) : Plan Walk := do
  let r ← schema.relation target
  if r.name ≠ outer.relation.name then
    throw (.unsupportedLookup c.name (.otherRelation c.name outer.relation.name))
  let key := r.primaryKey
  Plan.need outer.stage (if c.isReverse then key else c.name)
  let table ← Plan.freshWalk
  let first ← Plan.freshRelation
  let next ← Plan.freshRelation
  let depth := Expr.of table "depth"
  let start : Select :=
    { Select.empty with
      projection := [⟨.star (some first), none⟩, labelled (.int 1) "depth"]
      source := some (.table r.name (some first)) }
  let step : Select :=
    { Select.empty with
      projection := [⟨.star (some next), none⟩, labelled (.binary .plus depth (.int 1)) "depth"]
      source := some (.table r.name (some next))
      joins := [⟨.inner, false, .table table none, some (walkLink c key next table)⟩] }
  let step := match maxDepth with
    | some n => step.filter (.binary .lt depth (.int n.toUInt64.toInt64))
    | none => step
  return ⟨table, target, start.filter (walkLink c key first outer.qualifier), step⟩

/-- The join of a finished walk, whose rows `walked` gives, and the item that it shows: an array in
the order of depth. -/
def Walk.join (w : Walk) (name lateral : String) (walked : Scan) : Plan (Join × SelectItem) := do
  let rowsSelect :=
    if walked.select.isStar then walked.select
    else { walked.select with
      projection := walked.select.projection ++ [⟨.of walked.qualifier "depth", none⟩] }
  let rows ← Plan.freshAggregate
  let body := arrayOf rowsSelect rows [⟨.of rows "depth", none⟩]
  let statement : Statement :=
    .withCtes true [⟨w.table, .union true [.select w.start, .select w.step]⟩] (.select body)
  return (.leftLateral statement lateral, labelled (.of lateral "value") name)

end StagedSql
