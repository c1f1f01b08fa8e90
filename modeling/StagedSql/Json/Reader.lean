import StagedSql.Json.Basic
import StagedSql.Text.Reader

/-!
Reading JSON text.

The reader is strict: no comment, no trailing comma, no control character inside a string, no
surrogate without its partner, no number beyond the range of a double, and no more than
`Json.maxDepth` arrays and objects inside one another.
-/

namespace StagedSql

namespace Json

open Reader

/-- How many arrays and objects may lie inside one another. -/
def maxDepth : Nat := 127

def skipBlank : Reader Unit := do
  discard <| Reader.takeWhile fun c => c = ' ' || c = '\t' || c = '\n' || c = '\r'

/-! ### Numbers -/

/-- The integer part of a number: no zero stands before another digit. -/
def integerDigits : Reader (List Char) := do
  let ds ← takeWhile1 Char.isDigit
  match ds with
  | '0' :: _ :: _ => failure
  | _ => pure ds

/-- The digits after a point, none if there is no point. -/
def fractionDigits : Reader (List Char) := do
  if ← charIf '.' then takeWhile1 Char.isDigit else pure []

def exponentPart : Reader (Option Int) := do
  match ← peek with
  | some 'e' | some 'E' =>
      discard next
      let negative ← (do char '-'; pure true) <|> (do char '+'; pure false) <|> pure false
      let ds ← takeWhile1 Char.isDigit
      let n : Int := digitsValue 10 ds
      pure (some (if negative then -n else n))
  | _ => pure none

/-- The number with a sign, an integer part, a fraction and an exponent. An integer of 64 bits,
with or without sign, stays one; minus zero does not. -/
def numberOf (negative : Bool) (whole fraction : List Char) (exponent : Option Int) :
    Option Json :=
  let n : Nat := digitsValue 10 whole
  let integral := fraction.isEmpty && exponent.isNone
  if integral && !negative && n < Nat.pow 2 64 then some (.int n)
  else if integral && negative && n ≠ 0 && n ≤ Nat.pow 2 63 then some (.int (-(n : Int)))
  else
    let ds := whole ++ fraction
    let x := Double.ofDecimal negative (digitsValue 10 ds) ds.length
      (exponent.getD 0 - fraction.length)
    if x.isFinite then some (.float x) else none

def number : Reader Json := do
  let negative ← charIf '-'
  let whole ← integerDigits
  let fraction ← fractionDigits
  let exponent ← exponentPart
  numberOf negative whole fraction exponent

/-! ### Strings -/

def unit16 : Reader Nat := do
  let ds ← exactly isHexDigit 4
  pure (digitsValue 16 ds)

/-- The character of a unit that is not a surrogate, or of a leading surrogate and the trailing
one that has to follow it. -/
def escapedUnit : Reader Char := do
  let u ← unit16
  if 0xD800 ≤ u ∧ u ≤ 0xDBFF then
    char '\\'
    char 'u'
    let v ← unit16
    guard (0xDC00 ≤ v ∧ v ≤ 0xDFFF)
    pure (Char.ofNat (0x10000 + (u - 0xD800) * 0x400 + (v - 0xDC00)))
  else if 0xDC00 ≤ u ∧ u ≤ 0xDFFF then failure
  else pure (Char.ofNat u)

def escape : Reader Char := do
  match ← next with
  | '"' => pure '"'
  | '\\' => pure '\\'
  | '/' => pure '/'
  | 'b' => pure '\x08'
  | 'f' => pure '\x0c'
  | 'n' => pure '\n'
  | 'r' => pure '\r'
  | 't' => pure '\t'
  | 'u' => escapedUnit
  | _ => failure

/-- The characters of a string up to its closing quote, put before `acc` in reverse. Each step
takes a character, so the length of the text is fuel enough. -/
def stringRest : Nat → List Char → Reader String
  | 0, _ => failure
  | fuel + 1, acc => do
      match ← next with
      | '"' => pure (String.ofList acc.reverse)
      | '\\' => do stringRest fuel ((← escape) :: acc)
      | c => if c.toNat < 0x20 then failure else stringRest fuel (c :: acc)

def string (fuel : Nat) : Reader String := do
  char '"'
  stringRest fuel []

/-! ### Documents -/

mutual

/-- A document with at most `depth` arrays and objects inside one another. A call of `value` and
one of `items` or `members` go with at least one character, and a string takes less fuel than that,
so twice the length of the text and two more is fuel enough. -/
def value : Nat → Nat → Reader Json
  | 0, _ => failure
  | fuel + 1, depth => do
      match ← peek with
      | some 'n' => text "null"; pure .null
      | some 't' => text "true"; pure (.bool true)
      | some 'f' => text "false"; pure (.bool false)
      | some '"' => return .str (← string fuel)
      | some '[' =>
          guard (0 < depth)
          discard next
          skipBlank
          if ← charIf ']' then pure (.arr []) else return .arr (← items fuel (depth - 1))
      | some '{' =>
          guard (0 < depth)
          discard next
          skipBlank
          if ← charIf '}' then pure (.obj []) else return .obj (← members fuel (depth - 1))
      | _ => number

def items : Nat → Nat → Reader (List Json)
  | 0, _ => failure
  | fuel + 1, depth => do
      skipBlank
      let item ← value fuel depth
      skipBlank
      if ← charIf ',' then return item :: (← items fuel depth)
      char ']'
      pure [item]

def members : Nat → Nat → Reader (List (String × Json))
  | 0, _ => failure
  | fuel + 1, depth => do
      skipBlank
      let name ← string fuel
      skipBlank
      char ':'
      skipBlank
      let item ← value fuel depth
      skipBlank
      if ← charIf ',' then return (name, item) :: (← members fuel depth)
      char '}'
      pure [(name, item)]

end

/-- A document and the blanks around it. -/
def whole (length : Nat) : Reader Json := do
  skipBlank
  let j ← value (2 * length + 2) maxDepth
  skipBlank
  pure j

/-- The document that a text holds, with the members of objects as they are written. -/
def read? (s : String) : Option Json :=
  (whole s.length).run? s

/-- The document that a text holds, in canonical form. -/
def document? (s : String) : Option Json :=
  (read? s).map canonical

end Json

end StagedSql
