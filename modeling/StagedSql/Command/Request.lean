import StagedSql.Graph.Query
import StagedSql.Json.Reader
import StagedSql.Selection.Spec

/-!
Requests: queries on one relation, written as JSON.
-/

namespace StagedSql

/-- A query on one relation. -/
structure Request where
  table : String
  filter : Option (List (String × Json))
  insert : Option (List (String × Json))
  update : Option (List (String × Json))
  delete : Bool
  select : Option SelectionSpec
  orderBy : List String
  limit : Option UInt64
  offset : Option UInt64

namespace Request

/-! ### From JSON -/

/-- The names of the members, in the order in which a list gives them. -/
def memberNames : List String :=
  ["table", "filter", "insert", "update", "delete", "select", "order_by", "limit", "offset"]

/-- The members of an object, in canonical form, unless the document is null. -/
def object? : Json → Option (Option (List (String × Json)))
  | .null => some none
  | j =>
      match j.canonical with
      | .obj members => some (some members)
      | _ => none

/-- The count that a document is, unless it is null. -/
def count? : Json → Option (Option UInt64)
  | .null => some none
  | .int n => if 0 ≤ n ∧ n < Int.pow 2 64 then some (some (UInt64.ofNat n.toNat)) else none
  | _ => none

/-- The shape that a document asks for, unless it is null. -/
def shape? : Json → Option (Option SelectionSpec)
  | .null => some none
  | j => (SelectionSpec.ofJson? j).map some

/-- The request of named members. All but `table` may be missing. -/
def ofMembers? (members : List (String × Json)) : Option Request := do
  let read {α : Type} (name : String) (missing : α) (reader : Json → Option α) : Option α :=
    match members.lookup name with
    | none => some missing
    | some j => reader j
  let table ← (members.lookup "table").bind SelectionSpec.text?
  let filter ← read "filter" none object?
  let insert ← read "insert" none object?
  let update ← read "update" none object?
  let delete ← read "delete" false SelectionSpec.bool?
  let select ← read "select" none shape?
  let orderBy ← read "order_by" [] SelectionSpec.texts?
  let limit ← read "limit" none count?
  let offset ← read "offset" none count?
  pure ⟨table, filter, insert, update, delete, select, orderBy, limit, offset⟩

/-- The request that a document holds: an object whose members are known and given once each, or
a list of the members in order. -/
def ofJson? : Json → Option Request
  | .obj members => do
      let names := members.map (·.1)
      guard (names.all memberNames.contains && (distinct names).length == names.length)
      ofMembers? members
  | .arr items => do
      guard (items.length ≤ memberNames.length)
      ofMembers? (memberNames.zip items)
  | _ => none

/-- The request that a JSON text holds. -/
def ofText? (s : String) : Option Request :=
  (Json.read? s).bind ofJson?

/-! ### To queries -/

/-- Goes on with a query by what an option asks for. -/
def applied {α : Type} (option : Option α) (step : Query → α → Build Query) (q : Query) :
    Build Query :=
  match option with
  | none => pure q
  | some a => step q a

/-- The query of a request: rows are inserted, filtered, updated or deleted, and then shaped,
ordered and counted. -/
def build (r : Request) : Build Query := do
  let q ← Query.ofTable r.table
  let q ← applied r.insert (fun q members => q.insert (.ofJsonMembers members)) q
  let q ← applied r.filter (fun q members => q.filter (.ofJsonMembers members)) q
  let q ← applied r.update (fun q members => q.update (.ofJsonMembers members)) q
  let q ← if r.delete then q.delete else pure q
  let q ← applied r.select (fun q spec => q.select spec.toSelection) q
  let q ← r.orderBy.foldlM Query.orderBy q
  let q ← applied r.limit Query.limit q
  applied r.offset Query.offset q

end Request

end StagedSql
