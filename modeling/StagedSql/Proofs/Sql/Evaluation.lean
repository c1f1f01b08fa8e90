import Mathlib.Data.List.Basic
import StagedSql.Sql.Clause

/-!
What a SELECT gives.

The rows that a SELECT reads are bound to the names of its FROM items, and an expression is
evaluated where such rows are bound. There is no result where the database reports an error. Writes
and recursive tables are not evaluated.
-/

namespace StagedSql

/-! ### Tables -/

/-- A row: its columns in order, each with its value. -/
abbrev Row := List (String × Value)

/-- A table: the names of its columns, and rows with these columns. -/
structure Table where
  columns : List String
  rows : List Row

/-- The tables that can be read, by name. -/
abbrev Tables := String → Option Table

/-- The columns of the tables that can be read. -/
abbrev Catalog := String → Option (List String)

namespace Tables

/-- The columns of tables. -/
def catalog (ts : Tables) : Catalog := fun name => (ts name).map (·.columns)

/-- The tables with one more, which hides another one of its name. -/
def define (ts : Tables) (name : String) (t : Table) : Tables :=
  fun n => if n = name then some t else ts n

end Tables

/-- The value of a column of a row. No two columns of that name may be there. -/
def Row.cell? (row : Row) (column : String) : Option Value :=
  match row.filter (·.1 == column) with
  | [e] => some e.2
  | _ => none

/-- A row as a JSON object. -/
def Row.toJson (row : Row) : Json := .obj (row.map fun e => (e.1, e.2.toJson))

/-- The row under new names of its first columns. -/
def Row.renamed (columns : List String) (row : Row) : Row :=
  columns.zip (row.map (·.2)) ++ row.drop columns.length

/-! ### Values -/

/-- Whether a value is null. -/
def Value.isNull : Value → Bool
  | .null => true
  | _ => false

/-- The value of a truth value, which is null if it is unknown. -/
def Value.ofTruth : Option Bool → Value
  | some b => .bool b
  | none => .null

/-- The truth value that a value is, unknown if it is null. -/
def Value.truth? : Value → Option (Option Bool)
  | .bool b => some (some b)
  | .null => some none
  | _ => none

/-- Three-valued AND. -/
def bothTrue : Option Bool → Option Bool → Option Bool
  | some false, _ => some false
  | _, some false => some false
  | some true, some true => some true
  | _, _ => none

/-- Three-valued OR. -/
def eitherTrue : Option Bool → Option Bool → Option Bool
  | some true, _ => some true
  | _, some true => some true
  | some false, some false => some false
  | _, _ => none

/-- What the operators of the database do with values that are not null. All that is asked of them
is that equality is an equivalence. -/
structure Operators where
  equal : Value → Value → Bool
  less : Value → Value → Bool
  plus : Value → Value → Value
  overlap : Value → Value → Bool
  like : Value → Value → Char → Bool
  cast : Value → String → Value
  equal_equivalence : Equivalence fun a b => equal a b = true

namespace Operators

variable (ops : Operators)

/-- Whether two values are known to be equal. -/
def same (a b : Value) : Bool := !a.isNull && !b.isNull && ops.equal a b

/-- The result of an operator. Null is an operand of which nothing is known. -/
def apply (op : BinaryOp) (l r : Value) : Option Value :=
  match op with
  | .and => do return .ofTruth (bothTrue (← l.truth?) (← r.truth?))
  | .or => do return .ofTruth (eitherTrue (← l.truth?) (← r.truth?))
  | op =>
    if l.isNull || r.isNull then some .null
    else match op with
      | .eq => some (.bool (ops.equal l r))
      | .ne => some (.bool (!ops.equal l r))
      | .lt => some (.bool (ops.less l r))
      | .gt => some (.bool (ops.less r l))
      | .le => some (.bool (!ops.less r l))
      | .ge => some (.bool (!ops.less l r))
      | .plus => some (ops.plus l r)
      | .like => some (.bool (ops.like l r '\\'))
      | .overlap => some (.bool (ops.overlap l r))
      | _ => none

/-- Whether a value is among others: unknown if it is not found and one of the values is null. -/
def among (v : Value) (items : List Value) : Option Bool :=
  (items.map fun item => if v.isNull || item.isNull then none else some (ops.equal v item)).foldl
    eitherTrue (some false)

/-- Whether a value comes before another one in ascending order. Null comes last. -/
def before (a b : Value) : Bool :=
  if a.isNull then false else b.isNull || ops.less a b

/-- Whether a list of sort keys may stand before another one. A key is a value and whether its
order is descending. -/
def keysLe : List (Value × Bool) → List (Value × Bool) → Bool
  | (a, descending) :: as, (b, _) :: bs =>
    if ops.before (if descending then b else a) (if descending then a else b) then true
    else if ops.before (if descending then a else b) (if descending then b else a) then false
    else keysLe as bs
  | _, _ => true

/-- What stands under sort keys in the order of the keys. Equal keys keep their order. -/
def sorted {α : Type} (items : List (List (Value × Bool) × α)) : List α :=
  (items.mergeSort fun a b => ops.keysLe a.1 b.1).map (·.2)

end Operators

/-- The elements that meet a test, which may fail. -/
def filterOption {α : Type} (test : α → Option Bool) : List α → Option (List α)
  | [] => some []
  | a :: rest => do
      let kept ← test a
      let others ← filterOption test rest
      return if kept then a :: others else others

/-- The part of a list that a LIMIT and an OFFSET take. -/
def pageOf {α : Type} (limit offset : Option UInt64) (items : List α) : List α :=
  let rest := items.drop ((offset.map UInt64.toNat).getD 0)
  match limit with
  | none => rest
  | some n => rest.take n.toNat

/-! ### Rows bound to names -/

/-- A row under the name of a FROM item. -/
structure Binding where
  label : String
  row : Row
  /-- Whether the row is there: an outer join that finds nothing binds a row of nulls. -/
  found : Bool

/-- The row as a JSON object, and null if it is not there. -/
def Binding.toJson (b : Binding) : Value :=
  if b.found then .json b.row.toJson else .null

/-- The rows that one SELECT binds. -/
abbrev Level := List Binding

/-- The values of the columns of a name. -/
def Level.named (level : Level) (column : String) : List Value :=
  level.flatMap fun b => (b.row.filter (·.1 == column)).map (·.2)

/-- The rows that an expression sees, those of the innermost SELECT first. -/
abbrev Env := List Level

namespace Env

/-- The row of a name: that of the innermost SELECT that has one. -/
def binding? : Env → String → Option Binding
  | [], _ => none
  | level :: outer, label =>
    match level.find? (·.label == label) with
    | some b => some b
    | none => binding? outer label

/-- The values of the columns of a name in the innermost SELECT that has one. -/
def named : Env → String → List Value
  | [], _ => []
  | level :: outer, column =>
    match level.named column with
    | [] => named outer column
    | vs => vs

/-- The value of a column. Without a table, only one column may have the name. -/
def column? (env : Env) (table : Option String) (column : String) : Option Value :=
  match table with
  | some label => (env.binding? label).bind (·.row.cell? column)
  | none =>
    match env.named column with
    | [v] => some v
    | _ => none

/-- The row that the argument of `row_to_json` names, as JSON. A column of that name takes
precedence, and is no row. -/
def rowToJson (env : Env) : List Expr → Option Value
  | [.column none label] =>
    match env.named label with
    | [] => (env.binding? label).map Binding.toJson
    | _ => none
  | _ => none

/-- The cells that a star stands for: those of the innermost SELECT, or of one of its tables. -/
def starCells (env : Env) (table : Option String) : Option Row :=
  match table with
  | none => some ((env.head?.getD []).flatMap (·.row))
  | some label => (env.binding? label).map (·.row)

end Env

/-! ### Expressions without rows -/

/-- The value of a literal. -/
def Literal.value : Literal → Value
  | .int n => .int n
  | .string s => .text s
  | .bool b => .bool b
  | .null => .null

/-- The name of the column that an item without a label gives. -/
def Expr.givenName : Expr → String
  | .column _ name => name
  | .call function _ _ => function
  | .cast e _ => e.givenName
  | _ => "?column?"

/-- The name of the column that an item gives. -/
def SelectItem.givenName (item : SelectItem) : String := item.label.getD item.expr.givenName

mutual

/-- Whether an expression gathers the rows of its SELECT. -/
def Expr.aggregates : Expr → Bool
  | .call function args _ => function == "array_agg" || Expr.anyAggregates args
  | .binary _ l r => l.aggregates || r.aggregates
  | .not e => e.aggregates
  | .cast e _ => e.aggregates
  | .isNull _ e => e.aggregates
  | .paren e => e.aggregates
  | _ => false

/-- Whether one of several expressions gathers rows. -/
def Expr.anyAggregates : List Expr → Bool
  | [] => false
  | e :: rest => e.aggregates || Expr.anyAggregates rest

end

/-- Whether an expression is an array, whatever the rows are. -/
def Expr.isArray : Expr → Bool
  | .call function _ _ => function == "array_agg"
  | _ => false

/-- The value of an argument among others. A string literal beside an array is the text of an
array, of which only the empty one is read here. -/
def argumentValue (besideArray : Bool) (arg : Expr) (v : Value) : Option Value :=
  match besideArray, arg with
  | true, .literal (.string s) => if s = "\x7b\x7d" then some (.array []) else none
  | _, _ => some v

/-- The first argument that is not null. -/
def coalesceValues (args : List Expr) (vs : List Value) : Option Value := do
  let vs ← (args.zip vs).mapM fun a => argumentValue (args.any Expr.isArray) a.1 a.2
  return (vs.find? fun v => !v.isNull).getD .null

/-- The element of a list that has only one. -/
def only? {α : Type} : List α → Option α
  | [a] => some a
  | _ => none

/-- The array of gathered arguments, each of them one value. There is no array of nothing. -/
def gatheredArray (items : List (List Value)) : Option Value := do
  let vs ← items.mapM only?
  return if vs.isEmpty then .null else .array vs

/-- The value that the rows of a sub-select stand for: null if there is none. -/
def scalarOfRows : List Row → Option Value
  | [] => some .null
  | [[cell]] => some cell.2
  | _ => none

/-- The values of rows of one column. -/
def columnOfRows (rows : List Row) : Option (List Value) :=
  rows.mapM fun row => (only? row).map (·.2)

/-! ### Columns of results -/

/-- The columns of rows that are written out. -/
def valueColumns (rows : List (List Expr)) : List String :=
  (List.range ((rows.head?.getD []).length)).map fun i =>
    "column" ++ String.ofList (decimalDigits (i + 1))

/-- The columns that the items of a SELECT give, given the columns of its FROM items. -/
def SelectItem.columns (sources : List (String × List String)) :
    List SelectItem → Option (List String)
  | [] => some []
  | item :: rest => do
      let here ← match item with
        | ⟨.star none, none⟩ => some (sources.flatMap (·.2))
        | ⟨.star (some label), none⟩ => sources.lookup label
        | item => some [item.givenName]
      return here ++ (← SelectItem.columns sources rest)

mutual

/-- The columns of a FROM item. -/
def FromItem.columns (catalog : Catalog) : FromItem → Option (List String)
  | .table name _ => catalog name
  | .derived query _ names => do
      let columns ← query.columns catalog
      return names ++ columns.drop names.length

/-- The name and the columns of a FROM item. -/
def FromItem.sources (catalog : Catalog) : Option FromItem → Option (List (String × List String))
  | none => some []
  | some item => do return [(item.qualifier, ← item.columns catalog)]

/-- The names and columns of joins. -/
def Join.sources (catalog : Catalog) : List Join → Option (List (String × List String))
  | [] => some []
  | ⟨_, _, item, _⟩ :: rest => do
      let columns ← item.columns catalog
      return (item.qualifier, columns) :: (← Join.sources catalog rest)

/-- The columns of a SELECT. -/
def Select.columns (catalog : Catalog) : Select → Option (List String)
  | ⟨projection, source, joins, _, _, _, _⟩ => do
      let sources := (← FromItem.sources catalog source) ++ (← Join.sources catalog joins)
      if projection.isEmpty then return sources.flatMap (·.2)
      else SelectItem.columns sources projection

/-- The columns of a statement that gives rows. -/
def Statement.columns (catalog : Catalog) : Statement → Option (List String)
  | .select s => s.columns catalog
  | .values rows => some (valueColumns rows)
  | .union _ members => Statement.firstColumns catalog members
  | .withCtes false ctes body => do body.columns (← Cte.catalog catalog ctes)
  | _ => none

/-- The columns of the first statement. -/
def Statement.firstColumns (catalog : Catalog) : List Statement → Option (List String)
  | [] => none
  | s :: _ => s.columns catalog

/-- The columns of tables and of named statements. -/
def Cte.catalog (catalog : Catalog) : List Cte → Option Catalog
  | [] => some catalog
  | ⟨name, statement⟩ :: rest => do
      let columns ← statement.columns catalog
      Cte.catalog (fun n => if n = name then some columns else catalog n) rest

end

/-! ### Rows of results -/

/-- What a join makes of the rows bound so far and the rows that match them. -/
def joinedLevels (kind : JoinKind) (label : String) (columns : List String) (level : Level)
    (rows : List Row) : List Level :=
  match kind, rows with
  | .left, [] => [level ++ [⟨label, columns.map fun c => (c, .null), false⟩]]
  | _, rows => rows.map fun row => level ++ [⟨label, row, true⟩]

/-- The names under which a SELECT binds rows. -/
def boundNames (source : Option FromItem) (joins : List Join) : List String :=
  source.toList.map FromItem.qualifier ++ joins.map (·.item.qualifier)

mutual

/-- The value of an expression. The group holds what is seen in each row that an aggregate
gathers. -/
def Expr.eval (ops : Operators) (ts : Tables) (env : Env) (group : Option (List Env)) :
    Expr → Option Value
  | .column table name => env.column? table name
  | .literal l => some l.value
  | .param v => some v
  | .binary op l r => do
      ops.apply op (← l.eval ops ts env group) (← r.eval ops ts env group)
  | .not e => do
      let truth ← (← e.eval ops ts env group).truth?
      return .ofTruth (truth.map fun b => !b)
  | .call function args ordering =>
    if function = "row_to_json" then env.rowToJson args
    else if function = "array_agg" then do
      let items ← (← group).mapM fun env => do
        return (← OrderItem.keys ops ts env ordering, ← Expr.evalEach ops ts env none args)
      gatheredArray (ops.sorted items)
    else if function = "coalesce" then do
      coalesceValues args (← Expr.evalEach ops ts env group args)
    else none
  | .cast e type => do
      let v ← e.eval ops ts env group
      return if v.isNull then .null else ops.cast v type
  | .subquery query => do scalarOfRows (← query.rows ops ts env)
  | .existence negated query => do
      let rows ← query.rows ops ts env
      return .bool (rows.isEmpty == negated)
  | .inList negated e items => do
      let truth := ops.among (← e.eval ops ts env group) (← Expr.evalEach ops ts env group items)
      return .ofTruth (truth.map fun b => b != negated)
  | .inQuery negated e query => do
      let v ← e.eval ops ts env group
      let truth := ops.among v (← columnOfRows (← query.rows ops ts env))
      return .ofTruth (truth.map fun b => b != negated)
  | .isNull negated e => do return .bool ((← e.eval ops ts env group).isNull != negated)
  | .like negated e pattern escape => do
      let v ← e.eval ops ts env group
      let p ← pattern.eval ops ts env group
      return if v.isNull || p.isNull then .null else .bool (ops.like v p escape != negated)
  | .star _ => none
  | .paren e => e.eval ops ts env group

/-- The values of expressions. -/
def Expr.evalEach (ops : Operators) (ts : Tables) (env : Env) (group : Option (List Env)) :
    List Expr → Option (List Value)
  | [] => some []
  | e :: rest => do
      let v ← e.eval ops ts env group
      return v :: (← Expr.evalEach ops ts env group rest)

/-- Whether a condition is known to hold; one that is missing does. -/
def Expr.holds (ops : Operators) (ts : Tables) (env : Env) : Option Expr → Option Bool
  | none => some true
  | some e => do return (← (← e.eval ops ts env none).truth?) == some true

/-- The values of rows that are written out. -/
def Expr.evalRows (ops : Operators) (ts : Tables) (env : Env) :
    List (List Expr) → Option (List (List Value))
  | [] => some []
  | row :: rest => do
      let vs ← Expr.evalEach ops ts env none row
      return vs :: (← Expr.evalRows ops ts env rest)

/-- The sort keys of an ordering. -/
def OrderItem.keys (ops : Operators) (ts : Tables) (env : Env) :
    List OrderItem → Option (List (Value × Bool))
  | [] => some []
  | ⟨e, direction⟩ :: rest => do
      let v ← e.eval ops ts env none
      return (v, direction == some .desc) :: (← OrderItem.keys ops ts env rest)

/-- The cells that an item of a SELECT gives: one, unless it is a star. -/
def SelectItem.itemCells (ops : Operators) (ts : Tables) (env : Env) (group : Option (List Env)) :
    SelectItem → Option Row
  | ⟨.star table, none⟩ => env.starCells table
  | ⟨e, label⟩ => do return [(label.getD e.givenName, ← e.eval ops ts env group)]

/-- The cells that items give. -/
def SelectItem.cells (ops : Operators) (ts : Tables) (env : Env) (group : Option (List Env)) :
    List SelectItem → Option Row
  | [] => some []
  | item :: rest => do
      let here ← SelectItem.itemCells ops ts env group item
      return here ++ (← SelectItem.cells ops ts env group rest)

/-- The rows of a FROM item. -/
def FromItem.rows (ops : Operators) (ts : Tables) (env : Env) : FromItem → Option (List Row)
  | .table name _ => (ts name).map (·.rows)
  | .derived query _ names => do return (← query.rows ops ts env).map (Row.renamed names)

/-- The rows of a FROM item, bound to its name. -/
def FromItem.levels (ops : Operators) (ts : Tables) (env : Env) :
    Option FromItem → Option (List Level)
  | none => some [[]]
  | some item => do
      return (← item.rows ops ts env).map fun row => [⟨item.qualifier, row, true⟩]

/-- The rows bound so far, each with the rows that joins add to it. A lateral join sees the rows
bound before it. -/
def Join.levels (ops : Operators) (ts : Tables) (env : Env) :
    List Join → List Level → Option (List Level)
  | [], levels => some levels
  | ⟨kind, lateral, item, condition⟩ :: rest, levels => do
      let columns ← item.columns ts.catalog
      let joined ← levels.mapM fun level => do
        let rows ← item.rows ops ts (if lateral then level :: env else env)
        let matching ← filterOption
          (fun row => Expr.holds ops ts ((level ++ [⟨item.qualifier, row, true⟩]) :: env) condition)
          rows
        return joinedLevels kind item.qualifier columns level matching
      Join.levels ops ts env rest joined.flatten

/-- The rows of a SELECT. -/
def Select.rows (ops : Operators) (ts : Tables) (env : Env) : Select → Option (List Row)
  | ⟨projection, source, joins, condition, ordering, limit, offset⟩ => do
      if ¬ (boundNames source joins).Nodup then none
      let bound ← Join.levels ops ts env joins (← FromItem.levels ops ts env source)
      let kept ← filterOption (fun level => Expr.holds ops ts (level :: env) condition) bound
      if projection.any (·.expr.aggregates) then
        -- the columns of the single rows are out of reach of what is outside the aggregates
        let names := (boundNames source joins).map fun label => ⟨label, [], true⟩
        let row ← SelectItem.cells ops ts (names :: env) (some (kept.map (· :: env))) projection
        return pageOf limit offset [row]
      else
        let keyed ← kept.mapM fun level => do
          return (← OrderItem.keys ops ts (level :: env) ordering, level)
        (pageOf limit offset (ops.sorted keyed)).mapM fun level =>
          if projection.isEmpty then some (level.flatMap (·.row))
          else SelectItem.cells ops ts (level :: env) none projection

/-- The rows of a statement that gives rows. -/
def Statement.rows (ops : Operators) (ts : Tables) (env : Env) : Statement → Option (List Row)
  | .select s => s.rows ops ts env
  | .values rows => do
      return (← Expr.evalRows ops ts env rows).map fun vs => (valueColumns rows).zip vs
  | .union true members => do
      let columns ← Statement.firstColumns ts.catalog members
      return (← Statement.rowsOfEach ops ts env members).map (Row.renamed columns)
  | .withCtes false ctes body => do body.rows ops (← Cte.tables ops ts env ctes) env
  | _ => none

/-- The rows of statements, one after the other. -/
def Statement.rowsOfEach (ops : Operators) (ts : Tables) (env : Env) :
    List Statement → Option (List Row)
  | [] => some []
  | s :: rest => do
      let rows ← s.rows ops ts env
      return rows ++ (← Statement.rowsOfEach ops ts env rest)

/-- Tables and the results of named statements, each of which sees those before it. -/
def Cte.tables (ops : Operators) (ts : Tables) (env : Env) : List Cte → Option Tables
  | [] => some ts
  | ⟨name, statement⟩ :: rest => do
      let t : Table := ⟨← statement.columns ts.catalog, ← statement.rows ops ts env⟩
      Cte.tables ops (ts.define name t) env rest

end

end StagedSql
