import StagedSql.Lists
import StagedSql.Sql.Clause

/-!
The tokens of statements and expressions.

Every tree has one list of tokens (`Expr.tokens`, `Statement.tokens` and so on). Blanks are tokens
of their own, so the text of a statement is the texts of its tokens one after the other.
-/

namespace StagedSql

/-! ### Pieces -/

/-- Lists of tokens with a separator between them. -/
def tokensBetween (separator : List Token) : List (List Token) → List Token
  | [] => []
  | [ts] => ts
  | ts :: rest => ts ++ separator ++ tokensBetween separator rest

/-- Lists of tokens with commas between them. -/
def commaSeparated (tss : List (List Token)) : List Token :=
  tokensBetween [.symbol .comma, .space] tss

/-- Tokens in parentheses. -/
def parenthesized (ts : List Token) : List Token :=
  .symbol .leftParen :: ts ++ [.symbol .rightParen]

/-- A keyword and a blank. -/
def word (k : Keyword) : List Token := [.keyword k, .space]

/-- A blank, a keyword and a blank. -/
def innerWord (k : Keyword) : List Token := [.space, .keyword k, .space]

/-- Names with commas between them. -/
def nameList (names : List String) : List Token :=
  commaSeparated (names.map fun name => [.ident name])

/-- A new name for what stands before it; nothing if there is none. -/
def labelTokens : Option String → List Token
  | none => []
  | some label => innerWord .AS ++ [.ident label]

/-- The name of a table and a dot; nothing if there is none. -/
def qualifierTokens : Option String → List Token
  | none => []
  | some table => [.ident table, .symbol .dot]

/-- A blank and NOT, if something is negated. -/
def negationTokens (negated : Bool) : List Token :=
  if negated then [.space, .keyword .NOT] else []

namespace Literal

/-- The token of a literal. -/
def token : Literal → Token
  | .int n => .int n
  | .string s => .string s
  | .bool true => .keyword .TRUE
  | .bool false => .keyword .FALSE
  | .null => .keyword .NULL

end Literal

namespace BinaryOp

/-- The token of an operator. -/
def token : BinaryOp → Token
  | .eq => .symbol .equal
  | .ne => .symbol .notEqual
  | .lt => .symbol .less
  | .gt => .symbol .greater
  | .le => .symbol .lessEqual
  | .ge => .symbol .greaterEqual
  | .and => .keyword .AND
  | .or => .keyword .OR
  | .plus => .symbol .plus
  | .like => .keyword .LIKE
  | .overlap => .symbol .overlap

end BinaryOp

namespace Direction

/-- The keyword of a direction. -/
def keyword : Direction → Keyword
  | .asc => .ASC
  | .desc => .DESC

end Direction

namespace JoinKind

/-- The keyword of a kind of join. -/
def keyword : JoinKind → Keyword
  | .inner => .INNER
  | .left => .LEFT

end JoinKind

namespace Returning

/-- The RETURNING clause. -/
def tokens : Returning → List Token
  | .nothing => []
  | .all => innerWord .RETURNING ++ [.symbol .star]
  | .columns names => innerWord .RETURNING ++ nameList names

end Returning

namespace SetLocal

/-- The tokens of a setting. The value of a variable is a string literal, since no parameter may
stand there. -/
def tokens : SetLocal → List Token
  | .role name => word .SET ++ word .LOCAL ++ word .ROLE ++ [.ident name]
  | .var name value =>
      word .SET ++ word .LOCAL ++
        tokensBetween [.symbol .dot]
          ((splitAtChar '.' name.toList).map fun part => [.ident (String.ofList part)]) ++
        innerWord .TO ++ [.string value.plainText]

end SetLocal

/-- A keyword and a number after a blank; nothing if there is no number. Numbers are written as
signed 64-bit integers. -/
def countTokens (k : Keyword) : Option UInt64 → List Token
  | none => []
  | some n => innerWord k ++ [.int n.toInt64]

/-- Items after a blank and a keyword; nothing if there are none. -/
def listClause (k : Keyword) : List (List Token) → List Token
  | [] => []
  | tss => innerWord k ++ commaSeparated tss

/-! ### Trees -/

mutual

/-- The tokens of an expression. A membership in an empty list is written as its truth value. -/
def Expr.tokens : Expr → List Token
  | .column table name => qualifierTokens table ++ [.ident name]
  | .literal l => [l.token]
  | .param v => [.param v]
  | .binary op l r => l.tokens ++ [.space, op.token, .space] ++ r.tokens
  | .not e => word .NOT ++ e.tokens
  | .call function args ordering =>
      .function function ::
        parenthesized (commaSeparated (Expr.tokenLists args) ++
          listClause .ORDER_BY (OrderItem.tokenLists ordering))
  | .cast e type =>
      .keyword .CAST :: parenthesized (e.tokens ++ innerWord .AS ++ [.typeName type])
  | .subquery query => parenthesized query.tokens
  | .existence negated query =>
      (if negated then word .NOT else []) ++ word .EXISTS ++ parenthesized query.tokens
  | .inList negated _ [] => [.keyword (if negated then .TRUE else .FALSE)]
  | .inList negated e (item :: items) =>
      e.tokens ++ negationTokens negated ++ innerWord .IN ++
        parenthesized (commaSeparated (item.tokens :: Expr.tokenLists items))
  | .inQuery negated e query =>
      e.tokens ++ negationTokens negated ++ innerWord .IN ++ parenthesized query.tokens
  | .isNull negated e => e.tokens ++ [.space, .keyword (if negated then .IS_NOT_NULL else .IS_NULL)]
  | .like negated e pattern escape =>
      e.tokens ++ negationTokens negated ++ innerWord .LIKE ++ pattern.tokens ++
        innerWord .ESCAPE ++ [.string (String.singleton escape)]
  | .star table => qualifierTokens table ++ [.symbol .star]
  | .paren e => parenthesized e.tokens

/-- The tokens of each expression. -/
def Expr.tokenLists : List Expr → List (List Token)
  | [] => []
  | e :: rest => e.tokens :: Expr.tokenLists rest

/-- The tokens of a condition after a blank and a keyword; nothing if there is none. -/
def Expr.clause (k : Keyword) : Option Expr → List Token
  | none => []
  | some e => innerWord k ++ e.tokens

/-- Rows of expressions in parentheses. -/
def Expr.rowLists : List (List Expr) → List (List Token)
  | [] => []
  | row :: rest => parenthesized (commaSeparated (Expr.tokenLists row)) :: Expr.rowLists rest

/-- The tokens of a sort key. -/
def OrderItem.tokens : OrderItem → List Token
  | ⟨e, none⟩ => e.tokens
  | ⟨e, some d⟩ => e.tokens ++ [.space, .keyword d.keyword]

/-- The tokens of each sort key. -/
def OrderItem.tokenLists : List OrderItem → List (List Token)
  | [] => []
  | item :: rest => item.tokens :: OrderItem.tokenLists rest

/-- The tokens of an item of a SELECT. -/
def SelectItem.tokens : SelectItem → List Token
  | ⟨e, label⟩ => e.tokens ++ labelTokens label

/-- The tokens of each item. -/
def SelectItem.tokenLists : List SelectItem → List (List Token)
  | [] => []
  | item :: rest => item.tokens :: SelectItem.tokenLists rest

/-- The tokens of a FROM item. -/
def FromItem.tokens : FromItem → List Token
  | .table name label => .ident name :: labelTokens label
  | .derived query label columns =>
      parenthesized query.tokens ++ labelTokens (some label) ++
        (if columns.isEmpty then [] else parenthesized (nameList columns))

/-- The tokens of a FROM clause, with a blank before it; nothing if there is none. -/
def FromItem.clause : Option FromItem → List Token
  | none => []
  | some item => innerWord .FROM ++ item.tokens

/-- The tokens of a join. -/
def Join.tokens : Join → List Token
  | ⟨kind, lateral, item, condition⟩ =>
      word kind.keyword ++ word .JOIN ++ (if lateral then word .LATERAL else []) ++ item.tokens ++
        Expr.clause .ON condition

/-- Joins, each after a blank. -/
def Join.clauses : List Join → List Token
  | [] => []
  | join :: rest => .space :: join.tokens ++ Join.clauses rest

/-- The tokens of a SELECT. -/
def Select.tokens : Select → List Token
  | ⟨projection, source, joins, condition, ordering, limit, offset⟩ =>
      word .SELECT ++
        (if projection.isEmpty then [.symbol .star]
          else commaSeparated (SelectItem.tokenLists projection)) ++
        FromItem.clause source ++ Join.clauses joins ++ Expr.clause .WHERE condition ++
        listClause .ORDER_BY (OrderItem.tokenLists ordering) ++
        countTokens .LIMIT limit ++ countTokens .OFFSET offset

/-- What is inserted, after a blank. -/
def InsertSource.tokens : InsertSource → List Token
  | .rows rows => innerWord .VALUES ++ commaSeparated (Expr.rowLists rows)
  | .query query => .space :: query.tokens
  | .defaults => [.space, .keyword .DEFAULT, .space, .keyword .VALUES]

/-- The tokens of an INSERT. A column list stands only before rows or a query. -/
def Insert.tokens : Insert → List Token
  | ⟨table, columns, source, returning⟩ =>
      word .INSERT ++ word .INTO ++ [.ident table] ++
        (match columns, source with
          | [], _ => []
          | _, .defaults => []
          | columns, _ => .space :: parenthesized (nameList columns)) ++
        source.tokens ++ returning.tokens

/-- The tokens of each assignment. -/
def Assignment.tokenLists : List Assignment → List (List Token)
  | [] => []
  | ⟨column, value⟩ :: rest =>
      (.ident column :: [.space, .symbol .equal, .space] ++ value.tokens) ::
        Assignment.tokenLists rest

/-- What an UPDATE sets. -/
def Assignments.tokens : Assignments → List Token
  | .columns items => commaSeparated (Assignment.tokenLists items)
  | .query columns query =>
      parenthesized (nameList columns) ++ [.space, .symbol .equal, .space] ++
        parenthesized query.tokens

/-- The tokens of an UPDATE. -/
def Update.tokens : Update → List Token
  | ⟨table, assignments, condition, returning⟩ =>
      word .UPDATE ++ [.ident table] ++ innerWord .SET ++ assignments.tokens ++
        Expr.clause .WHERE condition ++ returning.tokens

/-- The tokens of a DELETE. -/
def Delete.tokens : Delete → List Token
  | ⟨table, condition, returning⟩ =>
      word .DELETE ++ word .FROM ++ [.ident table] ++ Expr.clause .WHERE condition ++
        returning.tokens

/-- The tokens of each named statement. -/
def Cte.tokenLists : List Cte → List (List Token)
  | [] => []
  | ⟨name, statement⟩ :: rest =>
      (.ident name :: innerWord .AS ++ parenthesized statement.tokens) :: Cte.tokenLists rest

/-- The tokens of a statement. A WITH clause without statements is left out. -/
def Statement.tokens : Statement → List Token
  | .select s => s.tokens
  | .insert s => s.tokens
  | .update s => s.tokens
  | .delete s => s.tokens
  | .values rows => word .VALUES ++ commaSeparated (Expr.rowLists rows)
  | .union all members =>
      tokensBetween (innerWord .UNION ++ if all then word .ALL else [])
        (Statement.tokenLists members)
  | .withCtes recursive ctes body =>
      (if ctes.isEmpty then []
        else word .WITH ++ (if recursive then word .RECURSIVE else []) ++
          commaSeparated (Cte.tokenLists ctes) ++ [.space]) ++ body.tokens
  | .setLocal s => s.tokens
  | .sequence parts => tokensBetween [.symbol .semicolon, .space] (Statement.tokenLists parts)

/-- The tokens of each statement. -/
def Statement.tokenLists : List Statement → List (List Token)
  | [] => []
  | s :: rest => s.tokens :: Statement.tokenLists rest

end

/-! ### Text -/

/-- A statement as one text. -/
def Statement.render (placeholder : Placeholder) (s : Statement) : Rendered :=
  renderTokens placeholder s.tokens

/-- An expression as one text. -/
def Expr.render (placeholder : Placeholder) (e : Expr) : Rendered :=
  renderTokens placeholder e.tokens

/-- Texts that are run in order in one transaction. Only the last one gives rows. -/
structure Batch where
  parts : List Rendered

/-- The parts before the last one. -/
def Batch.prelude (b : Batch) : List Rendered := b.parts.dropLast

/-- The last part. -/
def Batch.main? (b : Batch) : Option Rendered := b.parts.getLast?

/-- The parts of a statement: those of a sequence, and otherwise the statement itself. -/
def Statement.parts : Statement → List Statement
  | .sequence parts => parts
  | s => [s]

/-- One text for each part of a sequence. Parameters are counted afresh in each, since the parts are
sent one by one. -/
def Statement.batch (placeholder : Placeholder) (s : Statement) : Batch where
  parts := s.parts.map (Statement.render placeholder)

end StagedSql
