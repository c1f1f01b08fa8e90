import StagedSql.Condition.Key
import StagedSql.Lists
import StagedSql.Schema.Basic
import StagedSql.Sql.Statement

/-!
Conditions on the rows of a relation: lookups joined by and, or and not. A lookup compares what its
key leads to with an operand.
-/

namespace StagedSql

/-- What a lookup is compared with. -/
inductive Operand where
  | value (v : Value)
  | expr (e : Expr)
  /-- The rows of a query, which gives one column. -/
  | query (h : Handle)

/-- A condition on the rows of a relation. -/
inductive Condition where
  | lookup (key : String) (operand : Operand)
  | all (items : List Condition)
  | any (items : List Condition)
  | not (c : Condition)

namespace Condition

/-- Both conditions. What is already a list of conditions to be met is extended. -/
def both : Condition → Condition → Condition
  | .all ls, .all rs => .all (ls ++ rs)
  | .all ls, r => .all (ls ++ [r])
  | l, .all rs => .all (l :: rs)
  | l, r => .all [l, r]

/-- One of two conditions. A list of alternatives on the left is extended. -/
def either : Condition → Condition → Condition
  | .any ls, .any rs => .any (ls ++ rs)
  | .any ls, r => .any (ls ++ [r])
  | l, r => .any [l, r]

/-- All conditions of a list, joined from the left; nothing for an empty list. -/
def joined? : List Condition → Option Condition
  | [] => none
  | c :: rest => some (rest.foldl both c)

/-- A condition with another one, if there is one. -/
def withExisting : Option Condition → Condition → Condition
  | none, c => c
  | some existing, c => existing.both c

/-- The column of a relation that a key reads: the field or the first link, and the primary key if
that is a reverse column. -/
def keyColumn? (r : Relation) (key : String) : Option String :=
  match LookupKey.parse key with
  | .error _ => none
  | .ok path =>
      let first := path.joins.head?.getD path.field
      match r.column? first with
      | none => none
      | some c => some (if c.isReverse then r.primaryKey else first)

mutual

/-- The keys of the lookups, from left to right. -/
def keys : Condition → List String
  | .lookup key _ => [key]
  | .all items => keysOf items
  | .any items => keysOf items
  | .not c => c.keys

/-- The keys of conditions. -/
def keysOf : List Condition → List String
  | [] => []
  | c :: rest => c.keys ++ keysOf rest

end

/-- The columns of the relation itself that a condition reads, in the order of first use. A key
that leads nowhere reads nothing. -/
def primaryColumns (r : Relation) (c : Condition) : List String :=
  distinct (c.keys.filterMap (keyColumn? r))

/-- The query that an operand is, if it is one. -/
def operandHandles : Operand → List Handle
  | .query h => [h]
  | _ => []

mutual

/-- The queries that lookups are compared with, from left to right. -/
def handles : Condition → List Handle
  | .lookup _ operand => operandHandles operand
  | .all items => handlesOf items
  | .any items => handlesOf items
  | .not c => c.handles

/-- The queries of conditions. -/
def handlesOf : List Condition → List Handle
  | [] => []
  | c :: rest => c.handles ++ handlesOf rest

end

/-- The condition that every key meets its operand. A key that is given twice keeps its place and
takes the last operand. -/
def ofFilter (entries : List (String × Operand)) : Condition :=
  .all ((ofEntries entries).map fun e => .lookup e.1 e.2)

/-- The condition that every name of a JSON object, read as a key, meets its value. -/
def ofJsonMembers (members : List (String × Json)) : Condition :=
  ofFilter (members.map fun m => (m.1, .value (Value.ofJson m.2)))

end Condition

end StagedSql
