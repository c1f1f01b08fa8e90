import StagedSql.Value.Basic

/-!
The tokens of SQL text.
-/

namespace StagedSql

/-! ### Keywords and symbols -/

/-- A keyword. Words that always stand together are one keyword. -/
inductive Keyword where
  | SELECT | FROM | WHERE | AND | OR | NOT | AS | ON | JOIN | INNER | LEFT | LATERAL | ORDER_BY
  | ASC | DESC | LIMIT | OFFSET | IN | LIKE | ESCAPE | IS_NULL | IS_NOT_NULL | EXISTS | ALL
  | UNION | WITH | RECURSIVE | TRUE | FALSE | NULL | CAST | INSERT | INTO | VALUES | DEFAULT
  | UPDATE | SET | DELETE | RETURNING | LOCAL | ROLE | TO
  deriving DecidableEq

def Keyword.text : Keyword → String
  | .SELECT => "SELECT"
  | .FROM => "FROM"
  | .WHERE => "WHERE"
  | .AND => "AND"
  | .OR => "OR"
  | .NOT => "NOT"
  | .AS => "AS"
  | .ON => "ON"
  | .JOIN => "JOIN"
  | .INNER => "INNER"
  | .LEFT => "LEFT"
  | .LATERAL => "LATERAL"
  | .ORDER_BY => "ORDER BY"
  | .ASC => "ASC"
  | .DESC => "DESC"
  | .LIMIT => "LIMIT"
  | .OFFSET => "OFFSET"
  | .IN => "IN"
  | .LIKE => "LIKE"
  | .ESCAPE => "ESCAPE"
  | .IS_NULL => "IS NULL"
  | .IS_NOT_NULL => "IS NOT NULL"
  | .EXISTS => "EXISTS"
  | .ALL => "ALL"
  | .UNION => "UNION"
  | .WITH => "WITH"
  | .RECURSIVE => "RECURSIVE"
  | .TRUE => "TRUE"
  | .FALSE => "FALSE"
  | .NULL => "NULL"
  | .CAST => "CAST"
  | .INSERT => "INSERT"
  | .INTO => "INTO"
  | .VALUES => "VALUES"
  | .DEFAULT => "DEFAULT"
  | .UPDATE => "UPDATE"
  | .SET => "SET"
  | .DELETE => "DELETE"
  | .RETURNING => "RETURNING"
  | .LOCAL => "LOCAL"
  | .ROLE => "ROLE"
  | .TO => "TO"

inductive Symbol where
  | comma | dot | star | leftParen | rightParen | semicolon
  | equal | notEqual | less | greater | lessEqual | greaterEqual | plus | overlap
  deriving DecidableEq

def Symbol.text : Symbol → String
  | .comma => ","
  | .dot => "."
  | .star => "*"
  | .leftParen => "("
  | .rightParen => ")"
  | .semicolon => ";"
  | .equal => "="
  | .notEqual => "<>"
  | .less => "<"
  | .greater => ">"
  | .lessEqual => "<="
  | .greaterEqual => ">="
  | .plus => "+"
  | .overlap => "&&"

/-! ### Tokens -/

/-- A piece of SQL text. -/
inductive Token where
  | keyword (k : Keyword)
  | symbol (s : Symbol)
  | space
  /-- A name of a table, a column or an alias, which is quoted. -/
  | ident (name : String)
  | int (n : Int64)
  | string (s : String)
  /-- A bound value, which is marked by a placeholder. -/
  | param (v : Value)
  | function (name : String)
  | typeName (name : String)

/-- Writes a text between two marks, the mark itself being doubled inside it. -/
def quotedBy (mark : Char) (s : String) : String :=
  String.ofList
    (mark :: s.toList.flatMap (fun c => if c = mark then [mark, mark] else [c]) ++ [mark])

def quoteIdentifier (name : String) : String := quotedBy '"' name

def quoteString (s : String) : String := quotedBy '\'' s

/-- What a token is written as, `mark` being what stands for a parameter. -/
def Token.text (mark : String) : Token → String
  | .keyword k => k.text
  | .symbol s => s.text
  | .space => " "
  | .ident name => quoteIdentifier name
  | .int n => Json.intText n.toInt
  | .string s => quoteString s
  | .param _ => mark
  | .function name => name
  | .typeName name => name

/-! ### Rendering -/

/-- How parameters are marked. -/
inductive Placeholder where
  /-- `$1`, `$2` and so on. -/
  | numbered
  /-- `%s` for every parameter. -/
  | format
  deriving DecidableEq, Inhabited

/-- The mark of the parameter at a position, counted from one. -/
def Placeholder.marker : Placeholder → Nat → String
  | .numbered, position => "$" ++ String.ofList (decimalDigits position)
  | .format, _ => "%s"

/-- The texts of tokens of which `count` parameters went before. -/
def tokenTexts (placeholder : Placeholder) : Nat → List Token → List String
  | _, [] => []
  | count, .param v :: rest =>
      let mark := placeholder.marker (count + 1)
      Token.text mark (.param v) :: tokenTexts placeholder (count + 1) rest
  | count, t :: rest => t.text "" :: tokenTexts placeholder count rest

def Token.param? : Token → Option Value
  | .param v => some v
  | _ => none

/-- SQL text with the values of its parameters in the order of their marks. -/
structure Rendered where
  sql : String
  args : List Value

/-- The text of tokens and the values of their parameters, in the order of their marks. -/
def renderTokens (placeholder : Placeholder) (tokens : List Token) : Rendered where
  sql := String.join (tokenTexts placeholder 0 tokens)
  args := tokens.filterMap Token.param?

end StagedSql
