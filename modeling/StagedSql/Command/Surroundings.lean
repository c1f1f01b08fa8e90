import StagedSql.Settings.Basic
import StagedSql.Transaction

/-!
What a command finds around it.
-/

namespace StagedSql

/-- What a command finds around it. -/
structure Surroundings (m : Type → Type) where
  env : String → m (Option String)
  files : String → m FileState
  /-- The database of a URL. -/
  connect : String → m (Except Error Cursor)

/-! ### Variables -/

/-- The value of a variable: what follows the name and an equals sign in a setting. A setting is
written as its name, an equals sign and its value, so a name that holds an equals sign can be found
too. -/
def variableIn (settings : List (String × String)) (name : String) : Option String :=
  let head := (name ++ "=").toList
  if name.isEmpty then none
  else settings.findSome? fun (key, value) =>
    let setting := (key ++ "=" ++ value).toList
    if head.isPrefixOf setting then some (String.ofList (setting.drop head.length)) else none

/-! ### Files -/

def pathNames (path : String) : List String :=
  (path.splitOn "/").filter fun name => name != "." && !name.isEmpty

/-- A place that a path leads to from a directory. -/
inductive Place where
  /-- The place that some names lead to. -/
  | below (names : List String)
  /-- A directory that is not below the one where the path begins. -/
  | above

/-- Whether names lead to a directory, given the paths of all files. -/
def isDirectory (files : List (List String)) (names : List String) : Bool :=
  names.isEmpty || files.any fun f => names.isPrefixOf f && names.length < f.length

/-- The place that a name in a path leads to. Names lead on from directories only, and of those
above nothing is known but that they are there. -/
def Place.step (files : List (List String)) : Place → String → Option Place
  | .above, name => if name == "." || name == ".." || name.isEmpty then some .above else none
  | .below names, name =>
      if !isDirectory files names then none
      else if name == "." || name.isEmpty then some (.below names)
      else if name == ".." then some (if names.isEmpty then .above else .below names.dropLast)
      else some (.below (names ++ [name]))

/-- What a path leads to from a directory that holds some files. -/
def fileIn (files : List (String × String)) (path : String) : FileState :=
  let contents := files.map fun (name, text) => (pathNames name, text)
  let paths := contents.map (·.1)
  let start : Place := if path.front == '/' then .above else .below []
  if path.isEmpty then .absent
  else
    match (path.splitOn "/").foldlM (Place.step paths) start with
    | none => .absent
    | some .above => .unreadable
    | some (.below names) =>
        match contents.lookup names with
        | some text => .text text
        | none => if isDirectory paths names then .unreadable else .absent

/-! ### Surroundings -/

/-- Surroundings with some variables and files, in which no database can be reached. -/
def Surroundings.ofLists (settings files : List (String × String)) : Surroundings Id where
  env := variableIn settings
  files := fileIn files
  connect url := .error (.database ("no connection to " ++ url))

end StagedSql
