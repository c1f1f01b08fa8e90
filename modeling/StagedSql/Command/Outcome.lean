import StagedSql.Command.Invocation
import StagedSql.Command.Request
import StagedSql.Command.Surroundings
import StagedSql.Plan.Statement
import StagedSql.Schema.Toml

/-!
Running the command.
-/

namespace StagedSql

/-- Why a command fails. -/
inductive Failure where
  | settings (e : SettingsError)
  | noUrl (e : SettingsError)
  | noSchema
  | schemaFile (path : String)
  | schema (e : Error)
  | requestFile (path : String)
  | request
  /-- A variable without equals sign. -/
  | sessionVariable (given : String)
  | query (e : Error)
  | execution (e : Error)

def Failure.message : Failure → String
  | .settings e => s!"Error loading settings: {e.message}"
  | .noUrl e => s!"No database url: {e.message}"
  | .noSchema => "No schema given: pass --schema or set schema.path in querygraph.toml"
  | .schemaFile path => s!"Error reading schema '{path}': not a readable text"
  | .schema e => s!"Schema error: {e.message}"
  | .requestFile path => s!"Error reading request '{path}': not a readable text"
  | .request => "Invalid request: not a request"
  | .sessionVariable given => s!"Invalid session: expected NAME=VALUE, got '{given}'"
  | .query e => s!"Compilation error: {e.message}"
  | .execution e => s!"Execution error: {e.message}"

/-- The exit code of a command and what it prints. -/
structure Outcome where
  exit : Nat
  stdout : String
  stderr : String
  deriving DecidableEq

/-! ### Sessions from options -/

/-- The name and the value of a variable given as `NAME=VALUE`. The value is a JSON document if it
reads as one, and a text otherwise. -/
def variableOf (given : String) : Except Failure (String × Value) :=
  match splitEquals given.toList with
  | (_, none) => .error (.sessionVariable given)
  | (name, some raw) =>
      match Json.document? raw with
      | some j => .ok (name, Value.ofJson j)
      | none => .ok (name, .text raw)

def RequestOptions.session (o : RequestOptions) : Except Failure Session := do
  let start := match o.role with
    | none => Session.empty
    | some role => Session.empty.withRole role
  let vars ← o.vars.mapM variableOf
  return vars.foldl (fun s v => s.withVariable v.1 v.2) start

/-! ### Steps -/

def schemaOfFile (path : String) : FileState → Except Failure Schema
  | .text s => (Schema.ofToml 0 s).mapError .schema
  | _ => .error (.schemaFile path)

def requestOfFile (path : String) : FileState → Except Failure Request
  | .text s =>
      match Request.ofText? s with
      | some r => .ok r
      | none => .error .request
  | _ => .error (.requestFile path)

def batchOf (schema : Schema) (placeholder : Placeholder) (session : Session) (r : Request) :
    Except Error Batch := do
  let (q, g) := r.build (Graph.empty 0 schema)
  (← q).prepare g session placeholder

def Rendered.toJson (r : Rendered) : Json :=
  .obj [("sql", .str r.sql), ("args", .arr (r.args.map Value.toJson))]

def OutputFormat.print : OutputFormat → Batch → String
  | .sql, batch => String.join (batch.parts.map fun r => r.sql ++ ";\n")
  | .json, batch => (Json.arr (batch.parts.map Rendered.toJson)).pretty ++ "\n"

/-- What `run` prints: a row a line. -/
def printRows (rows : List Json) : String :=
  String.join (rows.map fun row => row.compact ++ "\n")

def printSchema (s : Schema) : String :=
  s!"OK: {s.relations.length} relations\n" ++
    String.join (s.relations.map fun r => s!"  - {r.name} (primary key: {r.primaryKey})\n")

/-- The rows of a batch, of which there is at most one if `one` is set. -/
def Cursor.rows (c : Cursor) (one : Bool) (batch : Batch) : Except Error (List Json) :=
  if one then (c.fetchOne batch []).1.map Option.toList else (c.execute batch []).1

/-! ### The command -/

section

variable {m : Type → Type} [Monad m] (w : Surroundings m)

def orFail {ε α : Type} (failure : ε → Failure) : Except ε α → ExceptT Failure m α
  | .ok a => pure a
  | .error e => throw (failure e)

def loadSchema (settings : Settings) (option : Option String) : ExceptT Failure m Schema := do
  match option <|> settings.schemaPath with
  | none => throw .noSchema
  | some path => do orFail id (schemaOfFile path (← w.files path))

def loadBatch (settings : Settings) (schema : Schema) (o : RequestOptions) :
    ExceptT Failure m Batch := do
  let r ← orFail id (requestOfFile o.request (← w.files o.request))
  let session ← orFail id o.session
  orFail .query (batchOf schema (o.placeholder.getD settings.placeholder) session r)

def loadUrl (settings : Settings) (option : Option String) : ExceptT Failure m String := do
  match option with
  | some url => return url
  | none =>
      let values ← (referencedNames (settings.url.getD "")).mapM fun name => do
        return (name, ← w.env name)
      orFail .noUrl (settings.resolvedUrl fun name => (values.lookup name).join)

def Invocation.output (i : Invocation) : ExceptT Failure m String := do
  let loaded ← liftM (Settings.load w.env w.files)
  let settings ← orFail .settings loaded
  match i with
  | .compile o format => do
      let schema ← loadSchema w settings o.schema
      return format.print (← loadBatch w settings schema o)
  | .run o url one => do
      let url ← loadUrl w settings url
      let schema ← loadSchema w settings o.schema
      let batch ← loadBatch w settings schema o
      let cursor ← orFail .execution (← w.connect url)
      return printRows (← orFail .execution (cursor.rows one batch))
  | .check path => do
      return printSchema (← loadSchema w settings path)

def usage : String :=
  "Usage: querygraph <compile|run|check> [OPTIONS]\n"

/-- The outcome of a list of arguments. -/
def runCommand (args : List String) : m Outcome := do
  match Invocation.parse args with
  | .error .wrongUsage => return ⟨2, "", usage⟩
  | .error .help => return ⟨0, usage, ""⟩
  | .error .version => return ⟨0, "querygraph 0.1.0\n", ""⟩
  | .ok i =>
      match ← (i.output w).run with
      | .ok text => return ⟨0, text, ""⟩
      | .error e => return ⟨1, "", e.message ++ "\n"⟩

end

end StagedSql
