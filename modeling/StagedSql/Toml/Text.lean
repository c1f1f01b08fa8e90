import StagedSql.Text.Reader

/-!
The texts of a TOML document: blanks, comments, strings and keys. Readers that take fuel have enough
of it if it exceeds the length of the text.
-/

namespace StagedSql

namespace Toml

open Reader

/-! ### Blanks -/

def isSpace (c : Char) : Bool := c = ' ' || c = '\t'

/-- A character that may stand in a comment or, quotes apart, in a string. -/
def isTextChar (c : Char) : Bool := c = '\t' || (' ' ≤ c && c ≠ '\x7f')

def skipSpace : Reader Unit := discard (Reader.takeWhile isSpace)

/-- What is left of a text after blanks, line ends and comments; the flag says whether a comment
has begun. -/
def dropVoid : Bool → List Char → List Char
  | _, [] => []
  | _, '\n' :: cs => dropVoid false cs
  | _, '\r' :: '\n' :: cs => dropVoid false cs
  | false, c :: cs =>
      if isSpace c then dropVoid false cs else if c = '#' then dropVoid true cs else c :: cs
  | true, c :: cs => if isTextChar c then dropVoid true cs else c :: cs

/-- Skips blanks, line ends and comments. -/
def skipVoid : Reader Unit := fun cs => some ((), dropVoid false cs)

def newLine : Reader Unit := char '\n' <|> text "\r\n"

/-- Takes the rest of a line, which holds nothing but blanks and a comment. -/
def lineEnd : Reader Unit := do
  skipSpace
  if ← charIf '#' then discard (Reader.takeWhile isTextChar)
  newLine <|> atEnd

/-! ### Strings -/

/-- The character of a number written in `count` digits of base sixteen. -/
def scalarValue (count : Nat) : Reader Char := do
  let n := digitsValue 16 (← exactly isHexDigit count)
  guard n.isValidChar
  pure (Char.ofNat n)

/-- What follows a backslash. -/
def escape : Reader Char := do
  match ← next with
  | '"' => pure '"'
  | '\\' => pure '\\'
  | 'b' => pure '\x08'
  | 'e' => pure '\x1b'
  | 'f' => pure '\x0c'
  | 'n' => pure '\n'
  | 'r' => pure '\r'
  | 't' => pure '\t'
  | 'x' => scalarValue 2
  | 'u' => scalarValue 4
  | 'U' => scalarValue 8
  | _ => failure

/-- The characters of a string on one line up to its closing quote. Each step takes a character,
so the length of the text is fuel enough. -/
def basicRest : Nat → Reader (List Char)
  | 0 => failure
  | fuel + 1 => do
      match ← next with
      | '"' => pure []
      | '\\' => return (← escape) :: (← basicRest fuel)
      | c => if isTextChar c then return c :: (← basicRest fuel) else failure

/-- What is left of a text after blanks and line ends. -/
def dropFold : List Char → List Char
  | [] => []
  | '\n' :: cs => dropFold cs
  | '\r' :: '\n' :: cs => dropFold cs
  | c :: cs => if isSpace c then dropFold cs else c :: cs

/-- After a backslash at the end of a line: all blanks and line ends up to the next character. -/
def skipFold : Reader Unit := do
  skipSpace
  newLine
  modify dropFold

/-- The closing quotes of a string of several lines: up to two more quotes belong to the string.
Fewer than three quotes close nothing. -/
def closing (quote : Char) : Reader (Bool × List Char) := do
  let quotes ← Reader.takeWhile (· = quote)
  if quotes.length < 3 then pure (false, quotes)
  else
    guard (quotes.length ≤ 5)
    pure (true, quotes.drop 3)

/-- The characters of a string of several lines, up to its closing quotes. Only a string in double
quotes has escapes. -/
def linesRest (quote : Char) : Nat → Reader (List Char)
  | 0 => failure
  | fuel + 1 => do
      match ← peek with
      | none => failure
      | some '\n' => discard next; return '\n' :: (← linesRest quote fuel)
      | some '\r' => text "\r\n"; return '\r' :: '\n' :: (← linesRest quote fuel)
      | some c =>
          if c = quote then
            let (closed, quotes) ← closing quote
            if closed then pure quotes else return quotes ++ (← linesRest quote fuel)
          else if c = '\\' && quote = '"' then
            discard next
            match ← peek with
            | some d =>
                if isSpace d || d = '\n' || d = '\r' then do skipFold; linesRest quote fuel
                else return (← escape) :: (← linesRest quote fuel)
            | none => failure
          else if isTextChar c then discard next; return c :: (← linesRest quote fuel)
          else failure

def lineString (fuel : Nat) : Reader String := do
  if ← charIf '"' then return String.ofList (← basicRest fuel)
  else
    char '\''
    let cs ← Reader.takeWhile fun c => isTextChar c && c ≠ '\''
    char '\''
    return String.ofList cs

/-- A string of several lines. A line end right after the opening quotes is left out. -/
def linesString (fuel : Nat) (quote : Char) : Reader String := do
  text (String.ofList [quote, quote, quote])
  newLine <|> pure ()
  return String.ofList (← linesRest quote fuel)

/-- A string in one of its four forms. -/
def quoted (fuel : Nat) : Reader String :=
  linesString fuel '"' <|> linesString fuel '\'' <|> lineString fuel

/-! ### Keys -/

def isKeyChar (c : Char) : Bool := c.isAlphanum || c = '_' || c = '-'

/-- A key without dots. -/
def simpleKey (fuel : Nat) : Reader String := do
  match ← peek with
  | some '"' | some '\'' => lineString fuel
  | _ => return String.ofList (← takeWhile1 isKeyChar)

/-- Further keys, each after a dot. Each step takes a character, so the length of the text is fuel
enough. -/
def moreKeys : Nat → Reader (List String)
  | 0 => failure
  | fuel + 1 => do
      skipSpace
      if ← charIf '.' then
        skipSpace
        return (← simpleKey fuel) :: (← moreKeys fuel)
      else pure []

/-- How many keys may be written with dots between them. -/
def maxKeys : Nat := 80

/-- Keys with dots between them and blanks around them: the path and the last key. -/
def dottedKey (fuel : Nat) : Reader (List String × String) := do
  skipSpace
  let first ← simpleKey fuel
  let more ← moreKeys fuel
  guard (more.length < maxKeys)
  match more.getLast? with
  | none => pure ([], first)
  | some last => pure (first :: more.dropLast, last)

end Toml

end StagedSql
