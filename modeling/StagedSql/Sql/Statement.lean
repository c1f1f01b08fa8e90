import StagedSql.Sql.Token

/-!
SQL statements and expressions as trees.

`Expr` and `Statement` refer to each other through sub-selects, so they and the clauses between
them are one family of types. `Returning` and `SetLocal` stand on their own.
-/

namespace StagedSql

/-- A value that is written out. -/
inductive Literal where
  | int (n : Int64)
  | string (s : String)
  | bool (b : Bool)
  | null
  deriving DecidableEq

/-- An operator with two operands. -/
inductive BinaryOp where
  | eq | ne | lt | gt | le | ge | and | or | plus | like | overlap
  deriving DecidableEq

/-- The direction of a sort key. -/
inductive Direction where
  | asc | desc
  deriving DecidableEq

/-- The kind of a join. -/
inductive JoinKind where
  | inner | left
  deriving DecidableEq

/-- What a mutation gives back of the rows it touches: nothing, all columns, or a list of columns
without repetition. -/
inductive Returning where
  | nothing
  | all
  | columns (names : List String)
  deriving DecidableEq

/-- A setting that lasts for the transaction. -/
inductive SetLocal where
  | role (name : String)
  /-- A variable, whose name is a list of parts joined by dots. -/
  | var (name : String) (value : Value)

mutual

/-- An expression. -/
inductive Expr where
  | column (table : Option String) (name : String)
  | literal (l : Literal)
  | param (v : Value)
  | binary (op : BinaryOp) (left right : Expr)
  | not (e : Expr)
  /-- A function call; the ordering belongs to an aggregate. -/
  | call (function : String) (args : List Expr) (ordering : List OrderItem)
  | cast (e : Expr) (type : String)
  | subquery (query : Statement)
  | existence (negated : Bool) (query : Statement)
  | inList (negated : Bool) (e : Expr) (items : List Expr)
  | inQuery (negated : Bool) (e : Expr) (query : Statement)
  | isNull (negated : Bool) (e : Expr)
  | like (negated : Bool) (e pattern : Expr) (escape : Char)
  | star (table : Option String)
  | paren (e : Expr)

/-- A sort key. -/
structure OrderItem where
  expr : Expr
  direction : Option Direction

/-- An item of a SELECT, which may have a label. -/
structure SelectItem where
  expr : Expr
  label : Option String

/-- What a SELECT reads rows from. -/
inductive FromItem where
  | table (name : String) (label : Option String)
  | derived (query : Statement) (label : String) (columns : List String)

/-- A join with what it joins. -/
structure Join where
  kind : JoinKind
  lateral : Bool
  item : FromItem
  condition : Option Expr

/-- A SELECT. An empty projection stands for all columns. -/
structure Select where
  projection : List SelectItem
  source : Option FromItem
  joins : List Join
  condition : Option Expr
  ordering : List OrderItem
  limit : Option UInt64
  offset : Option UInt64

/-- What is inserted. -/
inductive InsertSource where
  | rows (rows : List (List Expr))
  | query (query : Statement)
  | defaults

/-- An INSERT. -/
structure Insert where
  table : String
  columns : List String
  source : InsertSource
  returning : Returning

/-- A column that is set. -/
structure Assignment where
  column : String
  value : Expr

/-- What an UPDATE sets. -/
inductive Assignments where
  | columns (items : List Assignment)
  | query (columns : List String) (query : Statement)

/-- An UPDATE. -/
structure Update where
  table : String
  assignments : Assignments
  condition : Option Expr
  returning : Returning

/-- A DELETE. -/
structure Delete where
  table : String
  condition : Option Expr
  returning : Returning

/-- A statement under a name. -/
structure Cte where
  name : String
  statement : Statement

/-- A statement. -/
inductive Statement where
  | select (s : Select)
  | insert (s : Insert)
  | update (s : Update)
  | delete (s : Delete)
  | values (rows : List (List Expr))
  | union (all : Bool) (members : List Statement)
  | withCtes (recursive : Bool) (ctes : List Cte) (body : Statement)
  | setLocal (s : SetLocal)
  /-- Statements that are run one after the other. -/
  | sequence (parts : List Statement)

end

instance : Inhabited Expr := ⟨.literal .null⟩

instance : Inhabited Statement := ⟨.sequence []⟩

end StagedSql
