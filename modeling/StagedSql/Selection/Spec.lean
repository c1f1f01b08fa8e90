import StagedSql.Json.Basic
import StagedSql.Selection.Basic

/-!
Selections written as JSON.
-/

namespace StagedSql

/-- A selection as it is written. `recursive` and `maxDepth` count only where the spec is that of
a lookup. -/
inductive SelectionSpec where
  | fields (names : List String)
  | tree (names : List String) (lookups : List (String × SelectionSpec)) (recursive : Bool)
      (maxDepth : Option UInt32)

namespace SelectionSpec

/-! ### From JSON -/

def text? : Json → Option String
  | .str s => some s
  | _ => none

def texts? : Json → Option (List String)
  | .arr items => items.mapM text?
  | _ => none

def bool? : Json → Option Bool
  | .bool b => some b
  | _ => none

/-- The depth that a document is, if it is not null. -/
def depth? : Json → Option (Option UInt32)
  | .null => some none
  | .int n => if 0 ≤ n ∧ n < Int.pow 2 32 then some (some (UInt32.ofNat n.toNat)) else none
  | _ => none

/-- The member of a name that is written at most once: `none` if it is written twice. -/
def once? (name : String) (members : List (String × Json)) : Option (Option Json) :=
  match members.filter (·.1 == name) with
  | [] => some none
  | [m] => some (some m.2)
  | _ => none

def member? {α : Type} (name : String) (missing : α) (read : Json → Option α)
    (members : List (String × Json)) : Option α := do
  match ← once? name members with
  | none => pure missing
  | some j => read j

mutual

/-- The spec that a document holds: a list of strings, or an object. Other members of the object
are left aside. -/
def ofJson? : Json → Option SelectionSpec
  | .arr items => (items.mapM text?).map .fields
  | .obj members => do
      let names ← member? "fields" [] texts? members
      let recursive ← member? "recursive" false bool? members
      let maxDepth ← member? "max_depth" none depth? members
      let _ ← once? "lookups" members
      let lookups ← ofLookups? members
      pure (.tree names (ofEntries lookups) recursive maxDepth)
  | _ => none

/-- The specs under the member `lookups`, in written order. -/
def ofLookups? : List (String × Json) → Option (List (String × SelectionSpec))
  | [] => some []
  | (name, j) :: rest => do
      let here ← if name == "lookups" then ofMembers? j else pure []
      return here ++ (← ofLookups? rest)

/-- The specs that an object holds under its names. -/
def ofMembers? : Json → Option (List (String × SelectionSpec))
  | .obj members => ofEach? members
  | _ => none

def ofEach? : List (String × Json) → Option (List (String × SelectionSpec))
  | [] => some []
  | (name, j) :: rest => do
      let spec ← ofJson? j
      return (name, spec) :: (← ofEach? rest)

end

/-! ### To selections -/

mutual

/-- The selection that a spec stands for. -/
def toSelection : SelectionSpec → Selection
  | .fields names => Selection.ofFields names
  | .tree names lookups _ _ => addLookups (Selection.ofFields names) lookups

def toLookup : SelectionSpec → Lookup
  | .tree names lookups true maxDepth =>
      .recursive (addLookups (Selection.ofFields names) lookups) maxDepth
  | .tree names lookups false _ => .nested (addLookups (Selection.ofFields names) lookups)
  | .fields names => .nested (Selection.ofFields names)

def addLookups (s : Selection) : List (String × SelectionSpec) → Selection
  | [] => s
  | (name, spec) :: rest => addLookups (s.addLookup name spec.toLookup) rest

end

end SelectionSpec

end StagedSql
