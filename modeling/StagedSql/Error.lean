/-!
What can go wrong when a query is built, planned or run.

`Error` names the causes and `Error.message` words them; the wording of the reasons that several
causes carry is beside each type of reasons.
-/

namespace StagedSql

/-- Names a node of one of several graphs by the graph and the number of nodes before it. -/
structure Handle where
  graph : Nat
  index : Nat
  deriving DecidableEq, Inhabited

def Handle.text (h : Handle) : String := s!"#{h.index}"

inductive NodeKind where
  | select | insert | update | delete | filter | common | values
  deriving DecidableEq

def NodeKind.name : NodeKind → String
  | .select => "select"
  | .insert => "insert"
  | .update => "update"
  | .delete => "delete"
  | .filter => "filter"
  | .common => "common"
  | .values => "values"

/-- Why a list of relations is no schema. -/
inductive SchemaIssue where
  | unreadable
  | duplicateRelation (relation : String)
  | duplicateColumn (relation column : String)
  | invalidType (relation column type : String)
  | severalPrimaryKeys (relation : String)
  | missingPrimaryKey (relation column : String)
  | unknownReference (relation column target : String)
  | unknownReverse (relation column target : String)
  | unlinkedReverse (relation column target via : String)
  deriving DecidableEq

def SchemaIssue.text : SchemaIssue → String
  | .unreadable => "TOML parse error"
  | .duplicateRelation relation => s!"duplicate relation '{relation}'"
  | .duplicateColumn relation column => s!"duplicate column '{column}' on '{relation}'"
  | .invalidType relation column type => s!"'{relation}.{column}' has an invalid type '{type}'"
  | .severalPrimaryKeys relation => s!"relation '{relation}' has more than one primary key"
  | .missingPrimaryKey relation column =>
      s!"relation '{relation}' has no primary key column '{column}'"
  | .unknownReference relation column target =>
      s!"'{relation}.{column}' references unknown relation '{target}'"
  | .unknownReverse relation column target =>
      s!"'{relation}.{column}' reverses unknown relation '{target}'"
  | .unlinkedReverse relation column target via =>
      s!"'{relation}.{column}' needs '{target}.{via}' to reference '{relation}'"

/-- Why a lookup key does not fit a relation or an operand. -/
inductive LookupIssue where
  | emptySegment
  | noColumn (column relation : String)
  | notARelation (relation column : String)
  | unknownRelation (relation : String)
  | reverseField (field : String)
  | queryOperator
  | orderAgainstNull
  | expectsList
  | expectsText
  | expectsBoolean
  deriving DecidableEq

def LookupIssue.text : LookupIssue → String
  | .emptySegment => "empty segment"
  | .noColumn column relation => s!"no column '{column}' on '{relation}'"
  | .notARelation relation column => s!"'{relation}.{column}' is not a relation"
  | .unknownRelation relation => s!"unknown relation '{relation}'"
  | .reverseField field => s!"'{field}' is a reverse relation; add a field segment"
  | .queryOperator => "only eq, in and ni accept a sub-query"
  | .orderAgainstNull => "cannot order against null"
  | .expectsList => "expects a list"
  | .expectsText => "expects text"
  | .expectsBoolean => "expects a boolean"

/-- Why arguments do not go together. -/
inductive ConflictIssue where
  | noQueries
  | valuesAndSource
  | parentColumn (column reverse : String)
  | rowsFromQuery (reverse : String)
  deriving DecidableEq

def ConflictIssue.text : ConflictIssue → String
  | .noQueries => "common() needs at least one query"
  | .valuesAndSource => "column values cannot be combined with a source query"
  | .parentColumn column reverse => s!"'{column}' is set from the parent row of '{reverse}'"
  | .rowsFromQuery reverse => s!"rows added through '{reverse}' cannot come from a query"

/-- Why a column cannot take what it is given. -/
inductive ValueIssue where
  | noColumns
  | noRows
  | rowLength (row count expected : Nat)
  | reverseTakesRows
  | nestedNeedsForward
  | rowsOnlyOnInsert
  | rowsNeedReverse
  | noPrimaryKey
  | orderByReverse
  | nothingToUpdate
  | reverseFromQuery
  | noParent
  deriving DecidableEq

def ValueIssue.text : ValueIssue → String
  | .noColumns => "no columns given"
  | .noRows => "no rows given"
  | .rowLength row count expected => s!"row {row} has {count} values, expected {expected}"
  | .reverseTakesRows => "reverse relations take a list of rows"
  | .nestedNeedsForward => "nested rows need a forward relation column"
  | .rowsOnlyOnInsert => "related rows can only be added on insert"
  | .rowsNeedReverse => "a list of rows needs a reverse relation column"
  | .noPrimaryKey => "has no primary key"
  | .orderByReverse => "cannot order by a reverse relation"
  | .nothingToUpdate => "nothing to update"
  | .reverseFromQuery => "reverse relations cannot be written from a query"
  | .noParent => "parent key used outside a reverse insert"

/-- Why a column cannot be walked repeatedly. -/
inductive WalkIssue where
  | pointsElsewhere (column target : String)
  | otherRelation (column relation : String)
  deriving DecidableEq

def WalkIssue.text : WalkIssue → String
  | .pointsElsewhere column target =>
      s!"recursive lookups need a self-referencing column, '{column}' points at '{target}'"
  | .otherRelation column relation => s!"'{column}' does not reference '{relation}'"

/-- Why a session cannot be applied. -/
inductive SessionIssue where
  | emptyRole
  | invalidName (name : String)
  | notScalar (name : String)
  deriving DecidableEq

def SessionIssue.text : SessionIssue → String
  | .emptyRole => "empty role name"
  | .invalidName name => s!"invalid variable name '{name}'"
  | .notScalar name => s!"variable '{name}' must be a scalar"

/-- Why a query cannot be built, planned or run. -/
inductive Error where
  | unknownColumn (column relation : String)
  | unknownRelation (name : String)
  | invalidLookup (key segment : String) (issue : LookupIssue)
  | conflictingArguments (issue : ConflictIssue)
  | invalidValue (column : String) (issue : ValueIssue)
  /-- Rows can be inserted into a relation only; the kind is that of the root, if it is known. -/
  | notInsertable (kind : Option NodeKind)
  | notMutable (kind : NodeKind)
  | notARelation (column relation : String)
  | unsupportedLookup (name : String) (issue : WalkIssue)
  | invalidSchema (issue : SchemaIssue)
  | invalidSession (issue : SessionIssue)
  | multipleResults (count : Nat)
  | unknownNode (h : Handle)
  /-- A relation of another schema. -/
  | foreignRelation (index : Nat)
  | database (text : String)
  | connection (text : String)
  deriving DecidableEq

def Error.message : Error → String
  | .unknownColumn column relation => s!"unknown column '{column}' on relation '{relation}'"
  | .unknownRelation name => s!"unknown relation '{name}'"
  | .invalidLookup key segment issue =>
      s!"invalid filter lookup '{key}' at '{segment}': {issue.text}"
  | .conflictingArguments issue => s!"conflicting arguments: {issue.text}"
  | .invalidValue column issue => s!"invalid value for column '{column}': {issue.text}"
  | .notInsertable (some kind) =>
      s!"cannot insert into a {kind.name} query: only a bare relation is insertable"
  | .notInsertable none => "cannot insert into this query: only a bare relation is insertable"
  | .notMutable kind =>
      s!"cannot update or delete a {kind.name} query: expected a relation or a filtered relation"
  | .notARelation column relation =>
      s!"column '{column}' on relation '{relation}' is not a relation"
  | .unsupportedLookup name issue => s!"unsupported lookup '{name}': {issue.text}"
  | .invalidSchema issue => s!"invalid schema: {issue.text}"
  | .invalidSession issue => s!"invalid session: {issue.text}"
  | .multipleResults count => s!"expected at most one row, got {count}"
  | .unknownNode h => s!"query node {h.text} does not belong to this graph"
  | .foreignRelation index => s!"relation #{index} does not belong to this schema"
  | .database text => s!"database error: {text}"
  | .connection text => s!"connection error: {text}"

end StagedSql
