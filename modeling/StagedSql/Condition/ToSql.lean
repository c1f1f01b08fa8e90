import StagedSql.Condition.Basic
import StagedSql.Sql.Clause

/-!
Conditions as SQL expressions.

A lookup that follows links becomes `EXISTS` sub-selects inside one another, one for each link,
around the comparison of the field. Values are bound to parameters.
-/

namespace StagedSql

/-- What the surrounding statement provides, with a state of type `σ`. -/
structure ConditionContext (σ : Type) where
  /-- The name by which a relation goes inside a condition: its own, unless that is in the
  scope. -/
  qualify : String → List String → StateM σ String
  /-- The sub-select of a query that is compared with. -/
  subselect : Handle → StateT σ (Except Error) Statement

/-- The text in which `%`, `_` and the backslash stand for themselves in a pattern with the
backslash as escape. -/
def escapeLike (s : String) : String :=
  String.ofList
    (s.toList.flatMap fun c => if c = '\\' || c = '%' || c = '_' then ['\\', c] else [c])

/-- A table under a name. -/
def tableItem (name qualifier : String) : FromItem :=
  .table name (if name = qualifier then none else some qualifier)

/-- The comparison of a field with a query. -/
def compareQuery (key : String) (field : Expr) (op : Operator) (query : Statement) :
    Except Error Expr :=
  match op with
  | .eq => .ok (.binary .eq field (.subquery query))
  | .isIn => .ok (.inQuery false field query)
  | .notIn => .ok (.inQuery true field query)
  | op => .error (.invalidLookup key op.suffix .queryOperator)

/-- The comparison of a field with a value. -/
def compareValue (key : String) (field : Expr) (op : Operator) (v : Value) : Except Error Expr :=
  match op, v with
  | .eq, .null => .ok (.isNull false field)
  | .ne, .null => .ok (.isNull true field)
  | .lt, .null | .gt, .null | .le, .null | .ge, .null =>
      .error (.invalidLookup key op.suffix .orderAgainstNull)
  | .eq, v => .ok (.binary .eq field (.param v))
  | .ne, v => .ok (.binary .ne field (.param v))
  | .lt, v => .ok (.binary .lt field (.param v))
  | .gt, v => .ok (.binary .gt field (.param v))
  | .le, v => .ok (.binary .le field (.param v))
  | .ge, v => .ok (.binary .ge field (.param v))
  | .isIn, .array items => .ok (.inList false field (items.map .param))
  | .notIn, .array items => .ok (.inList true field (items.map .param))
  | .isIn, _ | .notIn, _ => .error (.invalidLookup key op.suffix .expectsList)
  | .contains, .text s =>
      .ok (.like false field (.param (.text ("%" ++ escapeLike s ++ "%"))) '\\')
  | .contains, _ => .error (.invalidLookup key op.suffix .expectsText)
  | .isNull, .bool isNull => .ok (.isNull (!isNull) field)
  | .isNull, _ => .error (.invalidLookup key op.suffix .expectsBoolean)
  | .overlap, .array items => .ok (.binary .overlap field (.param (.array items)))
  | .overlap, _ => .error (.invalidLookup key op.suffix .expectsList)

/-- The comparison of a field with an expression. -/
def compareExpr (key : String) (field : Expr) (op : Operator) (e : Expr) : Except Error Expr :=
  match op with
  | .eq => .ok (.binary .eq field e)
  | .ne => .ok (.binary .ne field e)
  | .lt => .ok (.binary .lt field e)
  | .gt => .ok (.binary .gt field e)
  | .le => .ok (.binary .le field e)
  | .ge => .ok (.binary .ge field e)
  | .isIn => .ok (.inList false field [e])
  | .notIn => .ok (.inList true field [e])
  | .contains => .error (.invalidLookup key op.suffix .expectsText)
  | .isNull => .error (.invalidLookup key op.suffix .expectsBoolean)
  | .overlap => .ok (.binary .overlap field e)

namespace Condition

variable {σ : Type} (ctx : ConditionContext σ) (schema : Schema)

/-- The comparison at the end of a lookup, on a relation that goes by `qualifier`. -/
def leaf (key : String) (path : LookupKey) (operand : Operand) (r : Relation)
    (qualifier : String) : StateT σ (Except Error) Expr := do
  let some c := r.column? path.field
    | throw (.invalidLookup key path.field (.noColumn path.field r.name))
  if c.isReverse then throw (.invalidLookup key path.field (.reverseField path.field))
  let field := Expr.of qualifier path.field
  match operand with
  | .query h => do compareQuery key field path.op (← ctx.subselect h)
  | .value v => compareValue key field path.op v
  | .expr e => compareExpr key field path.op e

/-- The sub-select that there is a row of `item` linked by `link` that meets `inner`. -/
def existsRow (item : FromItem) (link inner : Expr) : Expr :=
  .existence false (.select
    (({ Select.empty with projection := [⟨.int 1, none⟩], source := some item }.filter
      link).filter inner))

/-- The relation that a segment of a key leads to. -/
def target (key segment : String) (owner : Relation) :
    Except Error (Column × Relation) := do
  let some c := owner.column? segment
    | throw (.invalidLookup key segment (.noColumn segment owner.name))
  let some name := c.related?
    | throw (.invalidLookup key segment (.notARelation owner.name segment))
  let some r := schema.get? name
    | throw (.invalidLookup key segment (.unknownRelation name))
  return (c, r)

/-- The equality that links a row of `related` to the row of `owner` that a column `c` is followed
from. -/
def linkTo (c : Column) (owner : Relation) (ownerQualifier : String) (related : Relation)
    (qualifier : String) : Expr :=
  match c.kind with
  | .reverse _ via => .binary .eq (.of qualifier via) (.of ownerQualifier owner.primaryKey)
  | _ => .binary .eq (.of qualifier related.primaryKey) (.of ownerQualifier c.name)

/-- Follows the links of a key one after the other from `owner`, which goes by `qualifier`, and
compares the field at the end. -/
def follow (key : String) (path : LookupKey) (operand : Operand) :
    List String → Relation → String → List String → StateT σ (Except Error) Expr
  | [], owner, qualifier, _ => leaf ctx key path operand owner qualifier
  | segment :: rest, owner, qualifier, scope => do
      let (c, related) ← target schema key segment owner
      let name ← fun s => .ok (ctx.qualify related.name scope s)
      let inner ← follow key path operand rest related name (scope ++ [name])
      return existsRow (tableItem related.name name) (linkTo c owner qualifier related name) inner

/-- The expression of a lookup. -/
def lookupToSql (key : String) (operand : Operand) (r : Relation) (qualifier : String)
    (scope : List String) : StateT σ (Except Error) Expr := do
  let path ← LookupKey.parse key
  follow ctx schema key path operand path.joins r qualifier scope

mutual

/-- The expression of a condition on a relation that goes by `qualifier`, in a scope that holds the
qualifier. -/
def toSqlIn (r : Relation) (qualifier : String) (scope : List String) :
    Condition → StateT σ (Except Error) Expr
  | .lookup key operand => lookupToSql ctx schema key operand r qualifier scope
  | .all items => do
      return (Expr.conjunction? (← toSqlEach r qualifier scope items)).getD (.bool true)
  | .any items => do
      return (Expr.disjunction? (← toSqlEach r qualifier scope items)).getD (.bool false)
  | .not c => return (← toSqlIn r qualifier scope c).negate

/-- The expressions of conditions. -/
def toSqlEach (r : Relation) (qualifier : String) (scope : List String) :
    List Condition → StateT σ (Except Error) (List Expr)
  | [] => pure []
  | c :: rest => do
      let e ← toSqlIn r qualifier scope c
      return e :: (← toSqlEach r qualifier scope rest)

end

/-- The expression of a condition on a relation that goes by `qualifier`. The scope lists the names
that enclosing statements use. -/
def toSql (r : Relation) (qualifier : String) (scope : List String) (c : Condition) :
    StateT σ (Except Error) Expr :=
  toSqlIn ctx schema r qualifier (addOnce scope qualifier) c

end Condition

end StagedSql
