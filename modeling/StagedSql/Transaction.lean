import StagedSql.Error
import StagedSql.Sql.Tokens

/-!
Running a batch in one transaction.

Any error after the start of a transaction rolls it back before it is reported, unless it is the
commit that fails.
-/

namespace StagedSql

/-- What is asked of a database. -/
inductive Call where
  | start
  /-- Run a statement for what it does. -/
  | execute (statement : Rendered)
  /-- Run a statement for its rows. -/
  | query (statement : Rendered)
  | commit
  | rollback

/-- A database: the answer to a call after earlier calls. -/
structure Cursor where
  answer : List Call → Call → Except Error (List Json)

/-- A computation that makes calls, which are kept in order, and may fail. -/
abbrev Exchange := ExceptT Error (StateM (List Call))

namespace Cursor

def call (c : Cursor) (k : Call) : Exchange (List Json) := fun log =>
  (c.answer log k, log ++ [k])

/-- Runs the statements before the last one, and then the last one for its rows, of which there
may be at most `maxRows`. -/
def runParts (c : Cursor) (prelude : List Rendered) (main : Rendered) (maxRows : Option Nat) :
    Exchange (List Json) := do
  prelude.forM fun statement => discard (c.call (.execute statement))
  let rows ← c.call (.query main)
  match maxRows with
  | some most => if most < rows.length then throw (.multipleResults rows.length) else return rows
  | none => return rows

/-- Runs a batch in one transaction. An empty batch makes no call. -/
def transaction (c : Cursor) (batch : Batch) (maxRows : Option Nat) : Exchange (List Json) := do
  match batch.main? with
  | none => return []
  | some main =>
      discard (c.call .start)
      fun log =>
        match c.runParts batch.prelude main maxRows log with
        | (.ok rows, log) => (do discard (c.call .commit); return rows : Exchange _) log
        | (.error e, log) => (.error e, (c.call .rollback log).2)

def execute (c : Cursor) (batch : Batch) : Exchange (List Json) :=
  c.transaction batch none

/-- Runs a batch and gives its row, if there is one. Several rows are an error. -/
def fetchOne (c : Cursor) (batch : Batch) : Exchange (Option Json) :=
  return (← c.transaction batch (some 1)).getLast?

end Cursor

end StagedSql
