import StagedSql.Toml.Scalar
import StagedSql.Toml.Text

/-!
Reading TOML documents.

A document is a list of lines: headers, which name the table that the next lines add to, and keys
with values. A key is defined once; see `Toml.define` for what that means for tables.
-/

namespace StagedSql

namespace Toml

open Reader

/-- How many lists and tables may lie inside one another in a value. -/
def maxDepth : Nat := 80

/-! ### Values -/

mutual

/-- A value with at most `depth` lists and tables inside one another. A call of `value` and one of
`items` or `entries` go with at least one character, so twice the length of the text and two more
is fuel enough. -/
def value : Nat → Nat → Reader Toml
  | 0, _ => failure
  | fuel + 1, depth => do
      match ← peek with
      | some '"' | some '\'' => return .string (← quoted fuel)
      | some '[' =>
          guard (0 < depth)
          discard next
          return .array false (← items fuel (depth - 1))
      | some '{' =>
          guard (0 < depth)
          discard next
          return (← entries fuel (depth - 1) ⟨.inline, []⟩).value
      | _ => scalar

/-- The items of a list, up to its closing bracket. A comma may follow the last one. -/
def items : Nat → Nat → Reader (List Toml)
  | 0, _ => failure
  | fuel + 1, depth => do
      skipVoid
      if ← charIf ']' then return []
      let item ← value fuel depth
      skipVoid
      if ← charIf ',' then return item :: (← items fuel depth)
      char ']'
      pure [item]

/-- A table with further entries, up to its closing brace. Lines may end on both sides of an equals
sign, and a comma may follow the last entry. -/
def entries : Nat → Nat → Table → Reader Table
  | 0, _, _ => failure
  | fuel + 1, depth, t => do
      skipVoid
      if ← charIf '}' then return t
      let (path, key) ← dottedKey fuel
      skipVoid
      char '='
      skipVoid
      let t ← define path key (← value fuel depth) t
      skipVoid
      if ← charIf ',' then entries fuel depth t
      else
        char '}'
        pure t

end

/-! ### Documents -/

/-- A document that has been read up to some line: its root table, and the path of the table that
the next lines add to. -/
structure Progress where
  root : Table
  current : List String

/-- A header, after its opening bracket. -/
def header (fuel : Nat) (p : Progress) : Reader Progress := do
  let many ← charIf '['
  let (path, key) ← dottedKey fuel
  char ']'
  if many then char ']'
  let root ← if many then openItem path key p.root else openTable path key p.root
  pure ⟨root, path ++ [key]⟩

def assignment (fuel : Nat) (p : Progress) : Reader Progress := do
  let (path, key) ← dottedKey fuel
  char '='
  skipSpace
  let v ← value (2 * fuel) maxDepth
  let root ← change false (define path key v) p.current p.root
  pure { p with root }

/-- The lines of a document. Each takes a character, so fuel that exceeds the length of the text
does so at each line. -/
def lines : Nat → Progress → Reader Progress
  | 0, _ => failure
  | fuel + 1, p => do
      skipVoid
      match ← peek with
      | none => pure p
      | some c =>
          let p ← if c = '[' then do discard next; header (fuel + 1) p else assignment (fuel + 1) p
          lineEnd
          lines fuel p

/-- A byte order mark at the start of a text is no part of it. -/
def dropMark : List Char → List Char
  | '\ufeff' :: cs => cs
  | cs => cs

/-- The entries of the root table of a document. -/
def read? (s : String) : Option (List (String × Toml)) := do
  let cs := dropMark s.toList
  let (p, _) ← lines (cs.length + 1) ⟨⟨.header, []⟩, []⟩ cs
  pure p.root.entries

end Toml

end StagedSql
