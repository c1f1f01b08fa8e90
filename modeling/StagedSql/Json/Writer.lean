import StagedSql.Json.Basic

/-!
Writing JSON text.
-/

namespace StagedSql

namespace Json

/-- Numbers in JSON: a tie between two shortest decimals goes to the even one, numbers with a
leading exponent from -5 to 15 are written without exponent and with a fraction, and what is not
finite is `null`. -/
def floatStyle : FloatStyle where
  tie := .toEven
  positional := some (-5, 15)
  pointZero := true
  notANumber := "null"
  infinite _ := "null"

def hexDigit (n : Nat) : Char :=
  if n < 10 then Char.ofNat ('0'.toNat + n) else Char.ofNat ('a'.toNat + (n - 10))

/-- How a character is written inside a string. -/
def escapeChar (c : Char) : List Char :=
  if c = '"' then ['\\', '"']
  else if c = '\\' then ['\\', '\\']
  else if c = '\x08' then ['\\', 'b']
  else if c = '\x0c' then ['\\', 'f']
  else if c = '\n' then ['\\', 'n']
  else if c = '\r' then ['\\', 'r']
  else if c = '\t' then ['\\', 't']
  else if c.toNat < 0x20 then
    ['\\', 'u', '0', '0', hexDigit (c.toNat / 16), hexDigit (c.toNat % 16)]
  else [c]

def quote (s : String) : String :=
  String.ofList ('"' :: s.toList.flatMap escapeChar ++ ['"'])

/-- The decimal digits of an integer. -/
def intText (n : Int) : String :=
  String.ofList ((if n < 0 then ['-'] else []) ++ decimalDigits n.natAbs)

mutual

/-- A document as text without blanks. -/
def compact : Json → String
  | .null => "null"
  | .bool true => "true"
  | .bool false => "false"
  | .int n => intText n
  | .float x => floatStyle.write x
  | .str s => quote s
  | .arr items => "[" ++ ",".intercalate (compactItems items) ++ "]"
  | .obj members => "\x7b" ++ ",".intercalate (compactMembers members) ++ "\x7d"

def compactItems : List Json → List String
  | [] => []
  | j :: rest => j.compact :: compactItems rest

def compactMembers : List (String × Json) → List String
  | [] => []
  | (name, j) :: rest => (quote name ++ ":" ++ j.compact) :: compactMembers rest

end

def newLine (depth : Nat) : String :=
  String.ofList ('\n' :: List.replicate (2 * depth) ' ')

/-- Puts lines one level deeper than `depth` between brackets; nothing stands between the
brackets if there are none. -/
def block (left right : String) (depth : Nat) : List String → String
  | [] => left ++ right
  | lines =>
      left ++ newLine (depth + 1) ++ ("," ++ newLine (depth + 1)).intercalate lines ++
        newLine depth ++ right

mutual

/-- The indented text of a document that stands inside `depth` others. -/
def prettyAt (depth : Nat) : Json → String
  | .arr items => block "[" "]" depth (prettyItems (depth + 1) items)
  | .obj members => block "\x7b" "\x7d" depth (prettyMembers (depth + 1) members)
  | .null => "null"
  | .bool true => "true"
  | .bool false => "false"
  | .int n => intText n
  | .float x => floatStyle.write x
  | .str s => quote s

def prettyItems (depth : Nat) : List Json → List String
  | [] => []
  | j :: rest => j.prettyAt depth :: prettyItems depth rest

def prettyMembers (depth : Nat) : List (String × Json) → List String
  | [] => []
  | (name, j) :: rest => (quote name ++ ": " ++ j.prettyAt depth) :: prettyMembers depth rest

end

/-- A document as text with one item or member a line. -/
def pretty (j : Json) : String := j.prettyAt 0

end Json

end StagedSql
