import StagedSql.Sql.Token

/-!
The arguments of the command.

An option is written `--name value`, `--name=value`, `-n value`, `-nvalue` or `-n=value`. A value
of its own does not begin with a hyphen, unless it is one. An option is given at most once, except
where it says otherwise.
-/

namespace StagedSql

/-! ### Options -/

/-- The values that an option takes. -/
inductive OptionKind where
  | flag
  | text
  /-- A text that is not empty. -/
  | path
  | choice (words : List String)

def OptionKind.accepts : OptionKind → String → Bool
  | .flag, _ => false
  | .text, _ => true
  | .path, v => !v.isEmpty
  | .choice words, v => words.contains v

structure OptionSpec where
  name : String
  short : Option Char
  kind : OptionKind
  repeatable : Bool

/-- What ends the reading of arguments. -/
inductive Stop where
  | wrongUsage
  | help
  | version
  deriving DecidableEq

/-- An option as it is given: its name and its value. -/
abbrev Given := String × String

/-- An argument taken apart. -/
inductive ArgumentShape where
  /-- `--` alone, after which no option comes. -/
  | separator
  | long (name : String) (value : Option String)
  | short (letter : Char) (value : Option String)
  /-- Anything else, such as a value. -/
  | word

/-- A text up to the first equals sign, and what comes after it. -/
def splitEquals (cs : List Char) : String × Option String :=
  match cs.span (· ≠ '=') with
  | (name, '=' :: value) => (String.ofList name, some (String.ofList value))
  | (name, _) => (String.ofList name, none)

/-- The value that stands right behind a letter; an equals sign before it does not count. -/
def attachedValue : List Char → Option String
  | [] => none
  | '=' :: value => some (String.ofList value)
  | value => some (String.ofList value)

def ArgumentShape.ofText (arg : String) : ArgumentShape :=
  match arg.toList with
  | ['-', '-'] => .separator
  | '-' :: '-' :: rest =>
      let (name, value) := splitEquals rest
      .long name value
  | '-' :: letter :: rest => .short letter (attachedValue rest)
  | _ => .word

/-- Whether an argument can be the value of the option before it. -/
def isValue (arg : String) : Bool :=
  match ArgumentShape.ofText arg with
  | .word => true
  | _ => false

/-- Adds an option, which has to take its value and to be new unless it is repeatable. -/
def addGiven (spec : OptionSpec) (value : String) (given : List Given) :
    Except Stop (List Given) :=
  if !spec.kind.accepts value || (!spec.repeatable && given.any (·.1 == spec.name)) then
    .error .wrongUsage
  else .ok (given ++ [(spec.name, value)])

def addFlag (spec : OptionSpec) (given : List Given) : Except Stop (List Given) :=
  if given.any (·.1 == spec.name) then .error .wrongUsage else .ok (given ++ [(spec.name, "")])

/-- The option that an argument names, with the value that is attached to it. -/
def namedOption (specs : List OptionSpec) : ArgumentShape →
    Except Stop (OptionSpec × Option String)
  | .long "help" none => .error .help
  | .short 'h' _ => .error .help
  | .long name value =>
      match specs.find? (·.name == name) with
      | some spec => .ok (spec, value)
      | none => .error .wrongUsage
  | .short letter value =>
      match specs.find? (·.short == some letter) with
      | some spec => .ok (spec, value)
      | none => .error .wrongUsage
  | .separator | .word => .error .wrongUsage

/-- Whether an option takes no value. -/
def OptionSpec.isFlag (spec : OptionSpec) : Bool :=
  match spec.kind with
  | .flag => true
  | _ => false

/-- Reads arguments that are options, after those in `given`. Only at the end may the separator
stand. -/
def readOptions (specs : List OptionSpec) (given : List Given) :
    List String → Except Stop (List Given)
  | [] => .ok given
  | ["--"] => .ok given
  | arg :: rest => do
      match ← namedOption specs (.ofText arg) with
      | (spec, some value) => do readOptions specs (← addGiven spec value given) rest
      | (spec, none) =>
          if spec.isFlag then do readOptions specs (← addFlag spec given) rest
          else
            match rest with
            | [] => .error .wrongUsage
            | value :: rest =>
                if isValue value then do readOptions specs (← addGiven spec value given) rest
                else .error .wrongUsage

/-! ### Invocations -/

/-- How a compiled request is printed. -/
inductive OutputFormat where
  | sql
  | json
  deriving DecidableEq

structure RequestOptions where
  schema : Option String
  request : String
  placeholder : Option Placeholder
  role : Option String
  /-- Variables as `NAME=VALUE`. -/
  vars : List String

/-- What the command is asked to do. -/
inductive Invocation where
  /-- Print the SQL of a request. -/
  | compile (request : RequestOptions) (output : OutputFormat)
  /-- Run a request, which gives at most one row if `one` is set. -/
  | run (request : RequestOptions) (url : Option String) (one : Bool)
  | check (schema : Option String)

namespace Invocation

def schemaOption : OptionSpec := ⟨"schema", some 's', .path, false⟩

def requestOptions : List OptionSpec :=
  [schemaOption, ⟨"request", some 'r', .path, false⟩,
    ⟨"placeholder", some 'p', .choice ["numbered", "format"], false⟩,
    ⟨"role", none, .text, false⟩, ⟨"var", none, .text, true⟩]

def compileOptions : List OptionSpec :=
  requestOptions ++ [⟨"output", some 'o', .choice ["sql", "json"], false⟩]

def runOptions : List OptionSpec :=
  requestOptions ++ [⟨"url", none, .text, false⟩, ⟨"one", none, .flag, false⟩]

def subcommands : List String := ["compile", "run", "check", "help"]

def placeholderOf : String → Placeholder
  | "format" => .format
  | _ => .numbered

/-- The options of a request. The request itself has to be named. -/
def requestOf (given : List Given) : Except Stop RequestOptions :=
  match given.lookup "request" with
  | none => .error .wrongUsage
  | some request => .ok
      { schema := given.lookup "schema"
        request
        placeholder := (given.lookup "placeholder").map placeholderOf
        role := given.lookup "role"
        vars := (given.filter (·.1 == "var")).map (·.2) }

def parse : List String → Except Stop Invocation
  | "compile" :: args => do
      let given ← readOptions compileOptions [] args
      let output := if given.lookup "output" = some "json" then .json else .sql
      return .compile (← requestOf given) output
  | "run" :: args => do
      let given ← readOptions runOptions [] args
      return .run (← requestOf given) (given.lookup "url") (given.any (·.1 == "one"))
  | "check" :: args => do
      let given ← readOptions [schemaOption] [] args
      return .check (given.lookup "schema")
  | ["help"] => .error .help
  | ["help", name] => .error (if subcommands.contains name then .help else .wrongUsage)
  | arg :: _ =>
      match ArgumentShape.ofText arg with
      | .long "version" none => .error .version
      | .short 'V' _ => .error .version
      | .long "help" none => .error .help
      | .short 'h' _ => .error .help
      | _ => .error .wrongUsage
  | [] => .error .wrongUsage

end Invocation

end StagedSql
