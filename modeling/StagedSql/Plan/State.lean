import StagedSql.Condition.ToSql
import StagedSql.Graph.Basic

/-!
The state of planning a statement.
-/

namespace StagedSql

/-! ### Names -/

/-- How many names of each sort have been made up. -/
structure Names where
  relations : Nat
  laterals : Nat
  aggregates : Nat
  unions : Nat
  stages : Nat
  walks : Nat
  values : Nat

/-- No name has been made up. -/
def Names.none : Names := ⟨0, 0, 0, 0, 0, 0, 0⟩

/-- The name of a letter and a number. -/
def numberedName (letter : Char) (n : Nat) : String :=
  String.ofList (letter :: decimalDigits n)

/-! ### Stages -/

/-- A statement that is run before the rest, and whose rows are read under its name. -/
structure Stage where
  name : String
  statement : Statement
  relation : Relation
  /-- The name of what a SELECT reads. -/
  qualifier : Option String
  /-- The stage that a SELECT reads. -/
  base : Option String

/-- The columns that are read of a stage. -/
inductive Required where
  | all
  | columns (names : List String)
  deriving DecidableEq

/-- One more column is read. -/
def Required.add : Required → String → Required
  | .all, _ => .all
  | .columns names, name => .columns (addOnce names name)

/-- What is required of each stage. -/
abbrev Requirements := List (String × Required)

namespace Requirements

/-- A column is required of a stage. -/
def require (rs : Requirements) (stage column : String) : Requirements :=
  putKey stage (((rs.lookup stage).getD (.columns [])).add column) rs

/-- All columns are required of a stage. -/
def requireAll (rs : Requirements) (stage : String) : Requirements :=
  putKey stage .all rs

end Requirements

/-! ### The state -/

/-- The row that rows of other relations are inserted with. -/
structure ParentRow where
  stage : String
  key : String

/-- The state of planning. In the lists that serve as tables the newest entry of a key counts. -/
structure PlanState where
  names : Names
  /-- The stages in the order in which they are run. -/
  stages : List Stage
  required : Requirements
  /-- The stage of each node that has one. -/
  staged : List (Handle × String)
  /-- The stage of the rows of each select that is read in part by others. -/
  pages : List (Handle × String)
  /-- The stages that hold the rows which a column of a stage leads to. -/
  written : List ((String × String) × List String)
  /-- The rows that are being inserted, innermost first. -/
  parents : List ParentRow

/-- The state at the beginning. -/
def PlanState.initial : PlanState := ⟨.none, [], [], [], [], [], []⟩

/-- A new name for a relation whose own name is taken. -/
def PlanState.freshRelation : StateM PlanState String := fun s =>
  let n := s.names.relations + 1
  (numberedName 'r' n, { s with names := { s.names with relations := n } })

/-- The name itself, and a new one if it is in the scope. -/
def PlanState.qualify (name : String) (scope : List String) : StateM PlanState String :=
  if scope.contains name then freshRelation else pure name

/-- Computations on the state that may fail. -/
abbrev Plan := StateT PlanState (Except Error)

namespace Plan

/-- A new name for a relation. -/
def freshRelation : Plan String := modifyGet PlanState.freshRelation

/-- A new name for a lateral join. -/
def freshLateral : Plan String := modifyGet fun s =>
  let n := s.names.laterals + 1
  (numberedName 'j' n, { s with names := { s.names with laterals := n } })

/-- A new name for rows that are gathered. -/
def freshAggregate : Plan String := modifyGet fun s =>
  let n := s.names.aggregates + 1
  (numberedName 'a' n, { s with names := { s.names with aggregates := n } })

/-- A new name for a union. -/
def freshUnion : Plan String := modifyGet fun s =>
  let n := s.names.unions + 1
  (numberedName 'u' n, { s with names := { s.names with unions := n } })

/-- A new name for a stage. -/
def freshStage : Plan String := modifyGet fun s =>
  let n := s.names.stages + 1
  (numberedName 't' n, { s with names := { s.names with stages := n } })

/-- A new name for a recursive table. -/
def freshWalk : Plan String := modifyGet fun s =>
  let n := s.names.walks + 1
  (numberedName 'c' n, { s with names := { s.names with walks := n } })

/-- A new name for rows that are written out. -/
def freshValues : Plan String := modifyGet fun s =>
  let n := s.names.values + 1
  (numberedName 'v' n, { s with names := { s.names with values := n } })

/-- The name that a relation is read under. -/
def qualify (name : String) (scope : List String) : Plan String :=
  modifyGet (PlanState.qualify name scope)

/-- A column is read of a stage, if it is a stage that is read. -/
def need (stage : Option String) (column : String) : Plan Unit :=
  match stage with
  | none => pure ()
  | some name => modify fun s => { s with required := s.required.require name column }

/-- All columns of a stage are read. -/
def needAll (stage : String) : Plan Unit :=
  modify fun s => { s with required := s.required.requireAll stage }

/-- One more stage is run. -/
def addStage (stage : Stage) : Plan Unit :=
  modify fun s => { s with stages := s.stages ++ [stage] }

/-- The stage of a node. -/
def stageOf? (h : Handle) : Plan (Option String) := return (← get).staged.lookup h

/-- Notes the stage of a node. -/
def setStage (h : Handle) (name : String) : Plan Unit :=
  modify fun s => { s with staged := (h, name) :: s.staged }

/-- The stages that hold the rows which a column leads to, if they were written by this
statement. -/
def written? (stage : Option String) (column : String) : Plan (Option (List String)) :=
  match stage with
  | none => pure none
  | some name => return (← get).written.lookup (name, column)

/-- Notes the stages that hold the rows which a column of a stage leads to. -/
def setWritten (stage column : String) (members : List String) : Plan Unit :=
  modify fun s => { s with written := ((stage, column), members) :: s.written }

end Plan

end StagedSql
