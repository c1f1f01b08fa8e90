import StagedSql.Condition.Basic
import StagedSql.Selection.Basic

/-!
The nodes of a query graph.
-/

namespace StagedSql

/-- What a node reads: a relation or another node. -/
inductive Source where
  | relation (id : RelationId)
  | node (h : Handle)
  deriving DecidableEq

/-- What is written into a column. -/
inductive PayloadValue where
  | value (v : Value)
  /-- The result of a query, which gives one column. -/
  | query (h : Handle)
  /-- The primary key of the row that this one is inserted with. -/
  | parentKey

/-- What an insert or an update writes. -/
inductive Payload where
  | values (entries : List (String × PayloadValue))
  /-- The whole rows of a query. -/
  | query (h : Handle)

/-- A column to order by. -/
structure SortKey where
  column : String
  descending : Bool
  deriving DecidableEq

/-- Reads a column name, which a leading minus makes descending. -/
def SortKey.parse (spec : String) : SortKey :=
  match spec.toList with
  | '-' :: rest => ⟨String.ofList rest, true⟩
  | _ => ⟨spec, false⟩

/-- What a select asks of the rows it reads. -/
structure SelectNode where
  source : Source
  selection : Selection
  ordering : List SortKey
  limit : Option UInt64
  offset : Option UInt64

/-- A select of the rows of a source that asks nothing more. -/
def SelectNode.ofSource (source : Source) (selection : Selection) : SelectNode :=
  ⟨source, selection, [], none, none⟩

/-- Whether only a part of the rows is taken. -/
def SelectNode.isPaged (s : SelectNode) : Bool :=
  s.limit.isSome || s.offset.isSome

/-- A step of a query. -/
inductive Node where
  | select (s : SelectNode)
  /-- An insert into a relation, with the inserts that refer back to it by reverse column. -/
  | insert (relation : RelationId) (payload : Payload) (reverse : List (String × List Handle))
  | update (relation : RelationId) (payload : Payload) (condition : Option Condition)
  | delete (relation : RelationId) (condition : Option Condition)
  | filter (source : Source) (condition : Condition)
  /-- Queries that are run in order, the last one giving the rows. -/
  | common (queries : List Handle)
  /-- Rows that are written out. -/
  | values (columns : List String) (rows : List (List Value))

namespace Node

/-- The kind of a node. -/
def kind : Node → NodeKind
  | .select _ => .select
  | .insert .. => .insert
  | .update .. => .update
  | .delete .. => .delete
  | .filter .. => .filter
  | .common _ => .common
  | .values .. => .values

/-- Whether a node writes. -/
def isMutation : Node → Bool
  | .insert .. | .update .. | .delete .. => true
  | _ => false

end Node

/-! ### References -/

/-- The node that is read, if it is one. -/
def Source.handles : Source → List Handle
  | .relation _ => []
  | .node h => [h]

/-- The queries that a payload takes values from. -/
def Payload.handles : Payload → List Handle
  | .values entries => entries.flatMap fun e =>
      match e.2 with
      | .query h => [h]
      | _ => []
  | .query h => [h]

mutual

/-- The queries that a selection looks related rows up by, at any depth. -/
def Selection.handles : Selection → List Handle
  | ⟨_, lookups⟩ => Lookup.handlesOf lookups

/-- The queries of a lookup. -/
def Lookup.handles : Lookup → List Handle
  | .nested s => s.handles
  | .query h => [h]
  | .recursive s _ => s.handles

/-- The queries of lookups. -/
def Lookup.handlesOf : List (String × Lookup) → List Handle
  | [] => []
  | (_, l) :: rest => l.handles ++ Lookup.handlesOf rest

end

/-- The queries of a condition, if there is one. -/
def Condition.optionHandles (c : Option Condition) : List Handle :=
  (c.map Condition.handles).getD []

/-- The nodes that a node refers to. -/
def Node.handles : Node → List Handle
  | .select s => s.source.handles ++ s.selection.handles
  | .insert _ payload reverse => payload.handles ++ reverse.flatMap (·.2)
  | .update _ payload condition => payload.handles ++ Condition.optionHandles condition
  | .delete _ condition => Condition.optionHandles condition
  | .filter source condition => source.handles ++ condition.handles
  | .common queries => queries
  | .values .. => []

end StagedSql
