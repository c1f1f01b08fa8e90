import StagedSql.Plan.Scan

/-!
Writes as statements.
-/

namespace StagedSql

/-- What an insert or an update writes. -/
inductive Assigned where
  | columns (items : List Assignment)
  | query (columns : List String) (query : Statement)

/-- The key of the row that is being inserted, as a sub-select. -/
def parentKey (column : String) : Plan Expr := do
  match (← get).parents with
  | [] => throw (.invalidValue column .noParent)
  | parent :: _ =>
      Plan.need (some parent.stage) parent.key
      return .subquery (.select
        { Select.empty with
          projection := [⟨.of parent.stage parent.key, none⟩]
          source := some (.table parent.stage none) })

/-- The expression of a value that is written. -/
def payloadExpr (earlier : Earlier) (column : String) : PayloadValue → Plan Expr
  | .value v => pure (.param v)
  | .query h => return .subquery (← earlier.subselect h)
  | .parentKey => parentKey column

/-- Rows that are written out take the declared types of the columns that they are written
to. -/
def Reading.typedFor (r : Reading) (relation : Relation) : Reading :=
  match r.base with
  | .values columns rows _ =>
      { r with
        base := .values columns rows (columns.map fun c => (relation.column? c).bind (·.type?)) }
  | _ => r

/-- The columns that a scan gives, all stored columns if it gives every column, and the scan with
these columns written out. -/
def scanColumns (scan : Scan) : List String × Select :=
  if scan.select.isStar then
    let names := (scan.relation.columns.filter fun c => !c.isReverse).map (·.name)
    (names, { scan.select with projection := names.map fun n => ⟨.of scan.qualifier n, none⟩ })
  else (scan.select.outputNames, scan.select)

/-- Checks that a column can be written by a query. -/
def checkTarget (relation : Relation) (column : String) : Except Error Unit := do
  let c ← relation.column column
  if c.isReverse then throw (.invalidValue column .reverseFromQuery)

/-- A column and what is written into it. -/
def assignment (earlier : Earlier) (entry : String × PayloadValue) : Plan Assignment :=
  return ⟨entry.1, ← payloadExpr earlier entry.1 entry.2⟩

/-- What a payload assigns. -/
def assignedOf (schema : Schema) (earlier : Earlier) (relation : Relation) :
    Payload → Plan Assigned
  | .values entries => return .columns (← entries.mapM (assignment earlier))
  | .query h => do
      let reading ← earlier.read false h
      let scan ← scanReading schema earlier (reading.typedFor relation) []
      let (columns, select) := scanColumns scan
      columns.forM fun c => checkTarget relation c
      return .query columns (.select select)

/-- The INSERT of a payload, which gives back the primary key. -/
def insertStatement (schema : Schema) (earlier : Earlier) (relation : Relation)
    (payload : Payload) : Plan Statement := do
  let target : Insert :=
    { Insert.intoTable relation.name with returning := .ofColumns [relation.primaryKey] }
  match ← assignedOf schema earlier relation payload with
  | .columns [] => return .insert target
  | .columns items =>
      return .insert
        { target with columns := items.map (·.column), source := .rows [items.map (·.value)] }
  | .query columns query =>
      return .insert { target with columns := columns, source := .query query }

/-- A condition on the rows of a relation that are written. -/
def writeCondition (schema : Schema) (earlier : Earlier) (relation : Relation) :
    Option Condition → Plan (Option Expr)
  | none => pure none
  | some c => do
      let e ← c.toSql earlier.context schema relation relation.name [relation.name]
      return andCondition none e

/-- The update of the rows of a relation that meet a condition. -/
def updateStatement (schema : Schema) (earlier : Earlier) (relation : Relation)
    (payload : Payload) (condition : Option Condition) : Plan Statement := do
  let assignments ← match ← assignedOf schema earlier relation payload with
    | .columns [] => throw (.invalidValue relation.name .nothingToUpdate)
    | .columns items => pure (Assignments.columns items)
    | .query columns query => pure (Assignments.query columns query)
  let condition ← writeCondition schema earlier relation condition
  return .update ⟨relation.name, assignments, condition, .ofColumns [relation.primaryKey]⟩

/-- The delete of the rows of a relation that meet a condition. -/
def deleteStatement (schema : Schema) (earlier : Earlier) (relation : Relation)
    (condition : Option Condition) : Plan Statement := do
  let condition ← writeCondition schema earlier relation condition
  return .delete ⟨relation.name, condition, .ofColumns [relation.primaryKey]⟩

end StagedSql
