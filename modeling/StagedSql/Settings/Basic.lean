import StagedSql.Settings.Expansion
import StagedSql.Sql.Token
import StagedSql.Toml.Reader

/-!
Settings of the command.
-/

namespace StagedSql

/-- Why there are no settings, or no URL. -/
inductive SettingsError where
  | fileNotFound (path : String)
  | unreadable
  | malformed
  | missingVariable (name : String)
  | urlNotSet
  deriving DecidableEq

def SettingsError.message : SettingsError → String
  | .fileNotFound path => s!"Config file not found: {path}"
  | .unreadable => "Failed to read config file"
  | .malformed => "Failed to parse config file"
  | .missingVariable name => s!"Missing environment variable: {name}"
  | .urlNotSet => "Invalid configuration: database.url is not set"

/-- What is found under a path. -/
inductive FileState where
  | absent
  /-- There is something, but no text. -/
  | unreadable
  | text (contents : String)

/-- The database, the schema, the marks of parameters, and what is logged. -/
structure Settings where
  url : Option String
  schemaPath : Option String
  placeholder : Placeholder
  logFilter : String
  deriving DecidableEq

namespace Settings

def default : Settings := ⟨none, none, .numbered, "info"⟩

/-! ### From TOML -/

/-- Reads the first member of a section: the value of its key, or the first item if the section is
written as a list. A section without it has the default. -/
def member? {α : Type} (key : String) (missing : α) (read : Toml → Option α) :
    Toml → Option α
  | .array _ [] => some missing
  | .array _ (item :: _) => read item
  | v => do Toml.optional? key missing read (← v.members? [key])

/-- The marks of parameters: a name, or a table or list with nothing in it under the name. -/
def placeholderOf? : Toml → Option Placeholder
  | .string "numbered" => some .numbered
  | .string "format" => some .format
  | .table _ [("numbered", v)] => if isVoid v then some .numbered else none
  | .table _ [("format", v)] => if isVoid v then some .format else none
  | _ => none
where
  /-- Whether a value is a table or a list with nothing in it. -/
  isVoid : Toml → Bool
    | .table _ entries => entries.isEmpty
    | .array _ items => items.isEmpty
    | _ => false

/-- The settings that a document holds. Other keys are left aside. -/
def ofToml? (s : String) : Option Settings := do
  let entries ← Toml.known? ["database", "schema", "compiler", "logging"] (← Toml.read? s)
  let url ← Toml.optional? "database" none (member? "url" none (·.string?.map some)) entries
  let schemaPath ← Toml.optional? "schema" none (member? "path" none (·.string?.map some)) entries
  let placeholder ← Toml.optional? "compiler" .numbered
    (member? "placeholder" .numbered placeholderOf?) entries
  let logFilter ← Toml.optional? "logging" "info" (member? "filter" "info" Toml.string?) entries
  pure ⟨url, schemaPath, placeholder, logFilter⟩

def ofFile (path : String) : FileState → Except SettingsError Settings
  | .absent => .error (.fileNotFound path)
  | .unreadable => .error .unreadable
  | .text s =>
      match ofToml? s with
      | some settings => .ok settings
      | none => .error .malformed

/-- The file that is used when no other one is named. -/
def usualFile : String := "querygraph.toml"

/-- The settings of the file that the variable `QUERYGRAPH_CONFIG` names, or else of the usual
file; the defaults if that is not there. -/
def load {m : Type → Type} [Monad m] (env : String → m (Option String))
    (files : String → m FileState) : m (Except SettingsError Settings) := do
  match ← env "QUERYGRAPH_CONFIG" with
  | some path => return ofFile path (← files path)
  | none =>
      match ← files usualFile with
      | .absent => return .ok default
      | file => return ofFile usualFile file

/-! ### The database -/

/-- The URL of the database, variables filled in. -/
def resolvedUrl (env : String → Option String) (s : Settings) :
    Except SettingsError String :=
  match s.url with
  | none => .error .urlNotSet
  | some url => (expand env url).mapError .missingVariable

end Settings

end StagedSql
