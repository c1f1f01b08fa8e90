import StagedSql.Lists
import StagedSql.Number.Double

/-!
TOML documents.

Tables and arrays remember how they were written, since that decides what a later line of the
document may add to them. A number that is too large to be held is no error as long as nobody looks
at it: `Toml.isHeld` says whether a value is free of such numbers.
-/

namespace StagedSql

/-- How a table was written. -/
inductive TableOrigin where
  /-- Between braces. Nothing can be added to it. -/
  | inline
  | header
  /-- By the header of a table inside it. A header of its own may follow. -/
  | implied
  | dotted
  deriving DecidableEq

inductive Toml where
  | string (s : String)
  | integer (n : Int)
  | float (x : Double)
  /-- A number that is too large to be held. -/
  | excessive
  | boolean (b : Bool)
  /-- A date, a time, or both. -/
  | moment (text : String)
  /-- A list; one that is written by headers has `byHeaders`, and its items are tables. -/
  | array (byHeaders : Bool) (items : List Toml)
  | table (origin : TableOrigin) (entries : List (String × Toml))
  deriving Inhabited

namespace Toml

/-! ### Adding to a table -/

/-- A table apart from the value it is. -/
structure Table where
  origin : TableOrigin
  entries : List (String × Toml)

def Table.value (t : Table) : Toml := .table t.origin t.entries

/-- The table with a value under a key, in its old place if it has one. -/
def Table.put (t : Table) (key : String) (v : Toml) : Table :=
  { t with entries := putKey key v t.entries }

/-- Whether a table may be entered. Headers pass through every table but those between braces;
dotted keys pass only through tables that have no header. -/
def admits (byDots : Bool) : TableOrigin → Bool
  | .inline => false
  | .header => !byDots
  | .implied | .dotted => true

/-- Changes the table that a path leads to. Tables that are missing on the way are made; in a list
written by headers the path goes on in the last item. -/
def change (byDots : Bool) (act : Table → Option Table) : List String → Table → Option Table
  | [], t => act t
  | key :: rest, t =>
      match t.entries.lookup key with
      | none => do
          let inner ← change byDots act rest ⟨if byDots then .dotted else .implied, []⟩
          return t.put key inner.value
      | some (.table origin entries) => do
          guard (admits byDots origin)
          let inner ← change byDots act rest ⟨origin, entries⟩
          return t.put key inner.value
      | some (.array true items) =>
          match items.getLast? with
          | some (.table origin entries) => do
              let inner ← change byDots act rest ⟨origin, entries⟩
              return t.put key (.array true (items.dropLast ++ [inner.value]))
          | _ => none
      | some _ => none

/-- Puts a value under a key that is not taken. A table that dots lead to has to have been written
by dots, and only then. -/
def addEntry (byDots : Bool) (key : String) (v : Toml) (t : Table) : Option Table :=
  if (t.origin == .dotted) == byDots && !hasKey t.entries key then some (t.put key v) else none

/-- Puts a value under a dotted key. -/
def define (path : List String) (key : String) (v : Toml) (t : Table) : Option Table :=
  let byDots := !path.isEmpty
  change byDots (addEntry byDots key v) path t

/-- Gives a table a header of its own. -/
def openTable (path : List String) (key : String) (t : Table) : Option Table :=
  change false (fun t =>
    match t.entries.lookup key with
    | none => some (t.put key (.table .header []))
    | some (.table .implied entries) => some (t.put key (.table .header entries))
    | some _ => none) path t

/-- Adds an item to a list that is written by headers. -/
def openItem (path : List String) (key : String) (t : Table) : Option Table :=
  change false (fun t =>
    match t.entries.lookup key with
    | none => some (t.put key (.array true [.table .header []]))
    | some (.array true items) => some (t.put key (.array true (items ++ [.table .header []])))
    | some _ => none) path t

/-! ### Views -/

mutual

/-- Whether a value has no number in it that is too large to be held. -/
def isHeld : Toml → Bool
  | .excessive => false
  | .array _ items => areHeld items
  | .table _ entries => entriesHeld entries
  | _ => true

def areHeld : List Toml → Bool
  | [] => true
  | item :: rest => item.isHeld && areHeld rest

def entriesHeld : List (String × Toml) → Bool
  | [] => true
  | (_, v) :: rest => v.isHeld && entriesHeld rest

end

def string? : Toml → Option String
  | .string s => some s
  | _ => none

def boolean? : Toml → Option Bool
  | .boolean b => some b
  | _ => none

def items? : Toml → Option (List Toml)
  | .array _ items => some items
  | _ => none

/-- The entries under some names. Those under other names are left aside, but their numbers have to
be held. -/
def known? (names : List String) (entries : List (String × Toml)) :
    Option (List (String × Toml)) :=
  let (known, others) := entries.partition fun e => names.contains e.1
  if entriesHeld others then some known else none

/-- The entries of a table under some names. A date counts as a table without entries. -/
def members? (names : List String) : Toml → Option (List (String × Toml))
  | .table _ entries => known? names entries
  | .moment _ => some []
  | _ => none

def required? {α : Type} (key : String) (read : Toml → Option α) (entries : List (String × Toml)) :
    Option α :=
  (entries.lookup key).bind read

def optional? {α : Type} (key : String) (missing : α) (read : Toml → Option α)
    (entries : List (String × Toml)) : Option α :=
  match entries.lookup key with
  | none => some missing
  | some v => read v

end Toml

end StagedSql
