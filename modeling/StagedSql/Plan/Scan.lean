import StagedSql.Plan.Lookup

/-!
Readings as SELECTs.
-/

namespace StagedSql

/-- How the nodes before the one at hand are planned. -/
structure Earlier where
  /-- The stage that runs a node, which is made if there is none yet. -/
  stage : Handle → Plan String
  /-- The reading of a node. The flag says that something else is read of its rows, so that a page
  is a stage of its own. -/
  read : Bool → Handle → Plan Reading
  /-- The SELECT of a node in a scope. -/
  scan : Handle → List String → Plan Scan
  /-- The sub-select of a node that gives one column. -/
  subselect : Handle → Plan Statement

/-- There is no node: every handle is unknown. -/
def Earlier.none : Earlier where
  stage h := throw (.unknownNode h)
  read _ h := throw (.unknownNode h)
  scan h _ := throw (.unknownNode h)
  subselect h := throw (.unknownNode h)

/-- What conditions are planned with. -/
def Earlier.context (earlier : Earlier) : ConditionContext PlanState where
  qualify := PlanState.qualify
  subselect := earlier.subselect

/-! ### Shapes -/

/-- Joins and the items of a SELECT list. -/
structure Shape where
  joins : List Join
  items : List SelectItem

namespace Shape

/-- No joins and no items. -/
def empty : Shape := ⟨[], []⟩

/-- One shape after another. -/
def append (a b : Shape) : Shape := ⟨a.joins ++ b.joins, a.items ++ b.items⟩

/-- An item without a join. -/
def ofItem (item : SelectItem) : Shape := ⟨[], [item]⟩

/-- A join with its item. -/
def ofJoin (j : Join × SelectItem) : Shape := ⟨[j.1], [j.2]⟩

end Shape

/-- A field: a stored column gives its value, and a reverse column gives all its rows. -/
def shapeField (schema : Schema) (outer : Outer) (name : String) : Plan Shape := do
  let c ← outer.relation.column name
  if c.isReverse then
    let (c, target) ← lookupTarget schema outer name
    let lateral ← Plan.freshLateral
    let inner ← scanAll schema (← relatedBase outer name target) outer.scope
    return .ofJoin (← joinRows outer c name lateral inner)
  else
    Plan.need outer.stage name
    return .ofItem ⟨.of outer.qualifier name, none⟩

/-- The shape of fields. -/
def shapeFields (schema : Schema) (outer : Outer) : List String → Plan Shape
  | [] => pure .empty
  | name :: rest => do
      let s ← shapeField schema outer name
      return s.append (← shapeFields schema outer rest)

mutual

/-- The joins and items that give a selection of the outer row. -/
def shape (schema : Schema) (earlier : Earlier) (outer : Outer) : Selection → Plan Shape
  | ⟨fields, lookups⟩ => do
      let s ← shapeFields schema outer fields
      return s.append (← shapeLookups schema earlier outer lookups)

/-- The shape of lookups. -/
def shapeLookups (schema : Schema) (earlier : Earlier) (outer : Outer) :
    List (String × Lookup) → Plan Shape
  | [] => pure .empty
  | (name, lookup) :: rest => do
      let (c, target) ← lookupTarget schema outer name
      let lateral ← Plan.freshLateral
      let j ← shapeLookup schema earlier outer name c target lateral lookup
      return (Shape.ofJoin j).append (← shapeLookups schema earlier outer rest)

/-- The join of a lookup through the column `c`, which leads to the relation `target`, and the
item that it gives. -/
def shapeLookup (schema : Schema) (earlier : Earlier) (outer : Outer) (name : String)
    (c : Column) (target : RelationId) (lateral : String) : Lookup → Plan (Join × SelectItem)
  | .nested selection => do
      let o ← openBase schema (← relatedBase outer name target) outer.scope
      o.needAllIfEmpty selection
      let s ← shape schema earlier (o.outer outer.scope) selection
      joinRows outer c name lateral (o.scan s.joins s.items)
  | .query h => do
      joinRows outer c name lateral (← earlier.scan h outer.scope)
  | .recursive selection maxDepth => do
      let w ← beginWalk schema outer c target maxDepth
      let scope := outer.scope ++ [w.table]
      let o ← openBase schema (.walk w.table target) scope
      let s ← shape schema earlier (o.outer scope) selection
      w.join name lateral (o.scan s.joins s.items)

end

/-! ### Readings -/

/-- Adds conditions one after the other to a SELECT of an opened base. The columns that they read
are needed of the base. -/
def addConditions (schema : Schema) (earlier : Earlier) (outer : Outer) (s : Select) :
    List Condition → Plan Select
  | [] => pure s
  | c :: rest => do
      (c.primaryColumns outer.relation).forM (Plan.need outer.stage)
      let e ← c.toSql earlier.context schema outer.relation outer.qualifier outer.scope
      addConditions schema earlier outer (s.filter e) rest

/-- An item of the ordering, whose column is needed of the base. -/
def orderItem (outer : Outer) (key : SortKey) : Plan OrderItem := do
  Plan.need outer.stage key.column
  return ⟨.of outer.qualifier key.column, if key.descending then some .desc else none⟩

/-- The SELECT of a reading. -/
def scanReading (schema : Schema) (earlier : Earlier) (r : Reading) (scope : List String) :
    Plan Scan := do
  let o ← openBase schema r.base scope
  let outer := o.outer scope
  let scan := o.scan [] []
  let filtered ← addConditions schema earlier outer scan.select r.conditions
  o.needAllIfEmpty r.selection
  let s ← shape schema earlier outer r.selection
  let ordering ← r.ordering.mapM (orderItem outer)
  return { scan with
    select := { filtered with
      projection := s.items
      joins := s.joins
      ordering := ordering
      limit := r.limit
      offset := r.offset } }

end StagedSql
