import StagedSql.Lists
import StagedSql.Text.Reader
import StagedSql.Toml.Basic

/-!
The values of a TOML document that are written without quotes and brackets.

`scalar?` reads such a value: a truth value, an integer, a float, or a date or time.
-/

namespace StagedSql

namespace Toml

open Reader

/-! ### Numbers -/

/-- Digits, with single underscores between them. -/
def digitRun (isDigit : Char → Bool) : Reader (List Char) := do
  let cs ← takeWhile1 fun c => isDigit c || c = '_'
  let groups := splitAtChar '_' cs
  guard (groups.all fun g => !g.isEmpty)
  pure groups.flatten

/-- A sign, if there is one: whether it is a minus. -/
def sign : Reader Bool :=
  (do char '-'; pure true) <|> (do char '+'; pure false) <|> pure false

/-- The integer, which is held in 128 bits with or without sign. -/
def integerOf (n : Int) : Toml :=
  if -Int.pow 2 127 ≤ n ∧ n < Int.pow 2 128 then .integer n else .excessive

/-- The float, which is held if it is finite. -/
def floatOf (x : Double) : Toml :=
  if x.isFinite then .float x else .excessive

/-- An integer in a base that its first two characters name. -/
def basedInteger : Reader Toml := do
  char '0'
  let c ← next
  let (base, isDigit) ← match c with
    | 'x' => pure (16, isHexDigit)
    | 'o' => pure (8, fun c : Char => '0' ≤ c && c ≤ '7')
    | 'b' => pure (2, fun c : Char => c = '0' || c = '1')
    | _ => failure
  let ds ← digitRun isDigit
  pure (integerOf (digitsValue base ds))

/-- The digits after a point, none if there is no point. -/
def fraction : Reader (List Char) := do
  if ← charIf '.' then digitRun Char.isDigit else pure []

def exponent : Reader (Option Int) := do
  match ← peek with
  | some 'e' | some 'E' =>
      discard next
      let negative ← sign
      let n : Int := digitsValue 10 (← digitRun Char.isDigit)
      pure (some (if negative then -n else n))
  | _ => pure none

/-- A number in base ten. No zero stands before another digit. -/
def decimal : Reader Toml := do
  let negative ← sign
  let whole ← digitRun Char.isDigit
  guard (whole.length = 1 ∨ whole.head? ≠ some '0')
  let fraction ← fraction
  let exponent ← exponent
  if fraction.isEmpty && exponent.isNone then
    let n : Int := digitsValue 10 whole
    pure (integerOf (if negative then -n else n))
  else
    let ds := whole ++ fraction
    pure (floatOf (Double.ofDecimal negative (digitsValue 10 ds) ds.length
      (exponent.getD 0 - fraction.length)))

/-- An infinity or what is not a number. -/
def special : Reader Toml := do
  let negative ← sign
  let magnitude ← (do text "inf"; pure FloatFormat.double.infinityBits) <|>
    (do text "nan"; pure (FloatFormat.double.infinityBits + Nat.pow 2 51))
  pure (.float (.ofMagnitude negative magnitude))

/-! ### Dates and times -/

/-- A number of `count` digits between two bounds. -/
def numberIn (count low high : Nat) : Reader Nat := do
  let n := digitsValue 10 (← exactly Char.isDigit count)
  guard (low ≤ n ∧ n ≤ high)
  pure n

def daysOf (year month : Nat) : Nat :=
  if month = 2 then
    if year % 4 = 0 ∧ (year % 100 ≠ 0 ∨ year % 400 = 0) then 29 else 28
  else if month = 4 ∨ month = 6 ∨ month = 9 ∨ month = 11 then 30
  else 31

def date : Reader Unit := do
  let year ← numberIn 4 0 9999
  char '-'
  let month ← numberIn 2 1 12
  char '-'
  discard (numberIn 2 1 (daysOf year month))

/-- A time of day. Seconds may be left out. -/
def time : Reader Unit := do
  discard (numberIn 2 0 23)
  char ':'
  discard (numberIn 2 0 59)
  if ← charIf ':' then
    discard (numberIn 2 0 60)
    if ← charIf '.' then discard (takeWhile1 Char.isDigit)

/-- The distance of a time from the universal one. -/
def timeOffset : Reader Unit :=
  char 'Z' <|> char 'z' <|> do
    char '+' <|> char '-'
    discard (numberIn 2 0 23)
    char ':'
    discard (numberIn 2 0 59)

/-- A date, a time, or a date with a time and perhaps an offset. -/
def dateTime : Reader Unit :=
  (do
    date
    (do
      char 'T' <|> char 't' <|> char ' '
      time
      timeOffset <|> pure ()) <|> pure ()) <|> time

/-! ### Scalars -/

/-- The value that a text without quotes and brackets stands for. -/
def scalar? (s : String) : Option Toml :=
  if s = "true" then some (.boolean true)
  else if s = "false" then some (.boolean false)
  else basedInteger.run? s <|> decimal.run? s <|> special.run? s <|>
    (dateTime.run? s).map fun _ => .moment s

/-- A character of such a text. -/
def isScalarChar (c : Char) : Bool :=
  c.isAlphanum || c = '+' || c = '-' || c = '_' || c = '.' || c = ':'

/-- A text without quotes and brackets, and its value. A blank and a time after a date belong
to it. -/
def scalar : Reader Toml := do
  let cs ← takeWhile1 isScalarChar
  let timed : Reader (List Char) := do
    guard (date.run? (String.ofList cs)).isSome
    char ' '
    let hour ← exactly Char.isDigit 2
    char ':'
    let rest ← Reader.takeWhile isScalarChar
    pure (' ' :: hour ++ ':' :: rest)
  let tail ← timed <|> pure []
  scalar? (String.ofList (cs ++ tail))

end Toml

end StagedSql
