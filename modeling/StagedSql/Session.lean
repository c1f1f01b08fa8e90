import StagedSql.Error
import StagedSql.Json.Record
import StagedSql.Lists
import StagedSql.Sql.Statement
import StagedSql.Text.Identifier

/-!
Sessions: a role and variables that are set for the statement they go with.
-/

namespace StagedSql

/-- A role, and variables in the order of first addition. -/
structure Session where
  role : Option String
  vars : List (String × Value)

namespace Session

def empty : Session := ⟨none, []⟩

def withRole (s : Session) (role : String) : Session := { s with role := some role }

def withVariable (s : Session) (name : String) (value : Value) : Session :=
  { s with vars := putKey name value s.vars }

def isEmpty (s : Session) : Bool := s.role.isNone && s.vars.isEmpty

/-- The setting of a role, which must have a name. -/
def roleSetting : Option String → Except Error (List Statement)
  | none => .ok []
  | some role =>
      if role.isEmpty then .error (.invalidSession .emptyRole)
      else .ok [.setLocal (.role role)]

/-- Whether a value is neither an array nor a JSON document. -/
def isScalar : Value → Bool
  | .array _ | .json _ => false
  | _ => true

/-- The setting of a variable. Its name is a list of words joined by dots. -/
def variableSetting (name : String) (value : Value) : Except Error Statement :=
  if !isDottedName name then .error (.invalidSession (.invalidName name))
  else if !isScalar value then .error (.invalidSession (.notScalar name))
  else .ok (.setLocal (.var name value))

def settings (s : Session) : Except Error (List Statement) := do
  let role ← roleSetting s.role
  let vars ← s.vars.mapM fun (name, value) => variableSetting name value
  return role ++ vars

/-- A statement after the settings of a session. Without settings it stays as it is. -/
def wrap (s : Session) (statement : Statement) : Except Error Statement := do
  if s.isEmpty then return statement
  return .sequence ((← s.settings) ++ [statement])

/-! ### From JSON -/

/-- The role that a document is: a string or null. -/
def role? : Json → Option (Option String)
  | .null => some none
  | .str s => some (some s)
  | _ => none

/-- The variables that an object names, in written order. -/
def vars? : Json → Option (List (String × Value))
  | .obj members =>
      (members.mapM fun m => (Value.firstFit m.2.canonical).map (m.1, ·)).map ofEntries
  | _ => none

def membersOf (name : String) (members : List (String × Json)) : List Json :=
  (members.filter (·.1 == name)).map (·.2)

/-- Reads a member that is written at most once. -/
def single? {α : Type} (missing : α) (read : Json → Option α) : List Json → Option α
  | [] => some missing
  | [j] => read j
  | _ => none

/-- The session that a document holds: an object with `role` and `variables`, both of which may be
missing, or a list of the two. -/
def ofJson? : Json → Option Session
  | .obj members => do
      let role ← single? none role? (membersOf "role" members)
      let vars ← single? [] vars? (membersOf "variables" members)
      pure ⟨role, vars⟩
  | .arr [] => some empty
  | .arr [role] => do pure ⟨← role? role, []⟩
  | .arr [role, vars] => do pure ⟨← role? role, ← vars? vars⟩
  | _ => none

/-- The session that a JSON text holds. Other members are left aside. -/
def ofText? (s : String) : Option Session :=
  (Json.readRecord? ["role", "variables"] s).bind ofJson?

end Session

end StagedSql
