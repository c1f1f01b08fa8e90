import StagedSql.Lists
import StagedSql.Sql.Statement

/-!
Building expressions and clauses. Conditions are joined so that a later AND or OR keeps them
together.
-/

namespace StagedSql

/-! ### Expressions -/

namespace Expr

/-- A column of a table. -/
def of (table name : String) : Expr := .column (some table) name

/-- A number that is written out. -/
def int (n : Int64) : Expr := .literal (.int n)

/-- A truth value that is written out. -/
def bool (b : Bool) : Expr := .literal (.bool b)

/-- A call of a function. -/
def apply (function : String) (args : List Expr) : Expr := .call function args []

/-- The rows under a name as JSON. -/
def rowToJson (label : String) : Expr := apply "row_to_json" [.column none label]

/-- The array of the values of all rows. -/
def arrayAgg (e : Expr) (ordering : List OrderItem) : Expr := .call "array_agg" [e] ordering

/-- The first argument that is not null. -/
def coalesce (args : List Expr) : Expr := apply "coalesce" args

/-- The negation of an expression in parentheses. -/
def negate (e : Expr) : Expr := .not (.paren e)

/-- Puts an OR that stands bare into parentheses, so that it can be joined by AND. -/
def grouped : Expr → Expr
  | .binary .or l r => .paren (.binary .or l r)
  | e => e

/-- Joins expressions from the left by an operator; nothing for an empty list. -/
def joined? (op : BinaryOp) : List Expr → Option Expr
  | [] => none
  | e :: rest => some (rest.foldl (fun acc x => .binary op acc x) e)

/-- The conditions joined by AND; nothing for an empty list. -/
def conjunction? (es : List Expr) : Option Expr :=
  joined? .and (es.map grouped)

/-- The conditions joined by OR, in parentheses if there are several; nothing for an empty
list. -/
def disjunction? : List Expr → Option Expr
  | [e] => some e
  | es => (joined? .or es).map .paren

end Expr

/-- A clause's condition with another one added by AND. -/
def andCondition (condition : Option Expr) (e : Expr) : Option Expr :=
  Expr.conjunction? (condition.toList ++ [e])

/-! ### SELECT -/

/-- The name of the column that an item gives, if it is known. -/
def SelectItem.outputName? (item : SelectItem) : Option String :=
  match item.label, item.expr with
  | some label, _ => some label
  | none, .column _ name => some name
  | none, _ => none

/-- Whether an item stands for all columns. -/
def SelectItem.isStar (item : SelectItem) : Bool :=
  match item.label, item.expr with
  | none, .star _ => true
  | _, _ => false

/-- The name that rows are read under. -/
def FromItem.qualifier : FromItem → String
  | .table _ (some label) => label
  | .table name none => name
  | .derived _ label _ => label

/-- The lateral join of a query, which leaves out no row. -/
def Join.leftLateral (query : Statement) (label : String) : Join where
  kind := .left
  lateral := true
  item := .derived query label []
  condition := some (.bool true)

namespace Select

/-- The SELECT of nothing. -/
def empty : Select where
  projection := []
  source := none
  joins := []
  condition := none
  ordering := []
  limit := none
  offset := none

/-- Adds a condition. -/
def filter (s : Select) (e : Expr) : Select :=
  { s with condition := andCondition s.condition e }

/-- Whether the SELECT gives every column of what it reads. -/
def isStar (s : Select) : Bool :=
  s.projection.isEmpty || s.projection.any SelectItem.isStar

/-- The names of the columns that are given, once each. -/
def outputNames (s : Select) : List String :=
  distinct (s.projection.filterMap SelectItem.outputName?)

/-- Makes sure that a column is given: it is added unless all columns are given or one of its
name is. -/
def ensureColumn (s : Select) (qualifier column : String) : Select :=
  if s.isStar || s.outputNames.contains column then s
  else { s with projection := s.projection ++ [⟨.of qualifier column, none⟩] }

end Select

/-! ### Mutations -/

namespace Returning

/-- A list of columns, once each. -/
def ofColumns (names : List String) : Returning := .columns (distinct names)

/-- Gives back one more column. -/
def require : Returning → String → Returning
  | .all, _ => .all
  | .nothing, column => .columns [column]
  | .columns names, column => .columns (addOnce names column)

/-- Gives back all columns. -/
def requireAll (_ : Returning) : Returning := .all

end Returning

namespace Insert

/-- An INSERT of defaults. -/
def intoTable (table : String) : Insert where
  table := table
  columns := []
  source := .defaults
  returning := .nothing

/-- Adds a row of values. The first one takes the place of a query or of the defaults. -/
def addRow (s : Insert) (row : List Expr) : Insert :=
  match s.source with
  | .rows rows => { s with source := .rows (rows ++ [row]) }
  | _ => { s with source := .rows [row] }

end Insert

namespace Update

/-- An UPDATE that sets nothing. -/
def ofTable (table : String) : Update where
  table := table
  assignments := .columns []
  condition := none
  returning := .nothing

/-- Sets a column. The first column set takes the place of a query. -/
def assign (s : Update) (column : String) (value : Expr) : Update :=
  match s.assignments with
  | .columns items => { s with assignments := .columns (items ++ [⟨column, value⟩]) }
  | .query .. => { s with assignments := .columns [⟨column, value⟩] }

/-- Adds a condition. -/
def filter (s : Update) (e : Expr) : Update :=
  { s with condition := andCondition s.condition e }

end Update

namespace Delete

/-- A DELETE of all rows. -/
def ofTable (table : String) : Delete where
  table := table
  condition := none
  returning := .nothing

/-- Adds a condition. -/
def filter (s : Delete) (e : Expr) : Delete :=
  { s with condition := andCondition s.condition e }

end Delete

end StagedSql
