import StagedSql.Schema.Basic
import StagedSql.Toml.Reader

/-!
Schemas written as TOML documents.

A document lists its relations under `relation`, and a relation its columns under `column`. A column
has a `name`, the flags `nullable`, `unique` and `primary_key`, a `type`, and either `references`,
which names a relation, or `reverse`, which names a relation and a column.
-/

namespace StagedSql

namespace Schema

/-- The relation and the column that a reverse column stands for: a table, or a list of the
two. -/
def reverseOf? : Toml → Option (String × String)
  | .array _ (relation :: column :: _) => do pure (← relation.string?, ← column.string?)
  | v => do
      let entries ← v.members? ["relation", "column"]
      let relation ← Toml.required? "relation" Toml.string? entries
      let column ← Toml.required? "column" Toml.string? entries
      pure (relation, column)

/-- The kind of a column that may refer to a relation or reverse such a reference, not both. -/
def kindOf? : Option String → Option (String × String) → Option ColumnKind
  | none, none => some .scalar
  | some relation, none => some (.forward relation)
  | none, some (relation, column) => some (.reverse relation column)
  | some _, some _ => none

def columnNames : List String :=
  ["name", "nullable", "unique", "primary_key", "references", "reverse", "type"]

/-- A column. A primary key is unique. -/
def columnOf? (v : Toml) : Option Column := do
  let entries ← v.members? columnNames
  let name ← Toml.required? "name" Toml.string? entries
  let nullable ← Toml.optional? "nullable" false Toml.boolean? entries
  let unique ← Toml.optional? "unique" false Toml.boolean? entries
  let primaryKey ← Toml.optional? "primary_key" false Toml.boolean? entries
  let references ← Toml.optional? "references" none (fun v => v.string?.map some) entries
  let reverse ← Toml.optional? "reverse" none (fun v => (reverseOf? v).map some) entries
  let type? ← Toml.optional? "type" none (fun v => v.string?.map some) entries
  let kind ← kindOf? references reverse
  pure ⟨name, nullable, unique || primaryKey, primaryKey, kind, type?⟩

def columnsOf? (v : Toml) : Option (List Column) := do
  (← v.items?).mapM columnOf?

/-- A relation: a table, or a list of its name and its columns. -/
def relationOf? : Toml → Option Relation
  | .array _ [name] => do pure ⟨← name.string?, []⟩
  | .array _ (name :: columns :: _) => do pure ⟨← name.string?, ← columnsOf? columns⟩
  | v => do
      let entries ← v.members? ["name", "column"]
      let name ← Toml.required? "name" Toml.string? entries
      let columns ← Toml.optional? "column" [] columnsOf? entries
      pure ⟨name, columns⟩

def relationsOf? (s : String) : Option (List Relation) := do
  let entries ← Toml.known? ["relation"] (← Toml.read? s)
  Toml.optional? "relation" [] (fun v => do (← v.items?).mapM relationOf?) entries

def ofToml (id : Nat) (s : String) : Except Error Schema :=
  match relationsOf? s with
  | some relations => ofRelations id relations
  | none => .error (.invalidSchema .unreadable)

end Schema

end StagedSql
