import StagedSql.Number.Double

/-!
The decimal text of a double: the fewest digits that read back to it.
-/

namespace StagedSql

/-! ### The fewest digits -/

/-- The number `digits * 10 ^ exponent`. -/
structure Decimal where
  digits : Nat
  exponent : Int
  deriving DecidableEq

/-- Which of two equally close decimals is taken. -/
inductive Tie where
  | up
  | toEven
  deriving DecidableEq

def decimalDigits (n : Nat) : List Char :=
  Nat.toDigits 10 n

/-- The exponent of the leading decimal digit of `num / den`. -/
def leadingExponent (num den : Nat) : Int :=
  let l : Int := Int.ofNat (decimalDigits num).length - Int.ofNat (decimalDigits den).length
  if den * Nat.pow 10 l.toNat ≤ num * Nat.pow 10 (-l).toNat then l else l - 1

namespace Decimal

/-- Drops trailing zeros of the digits, at most `fuel` of them. -/
def trimZeros : Nat → Decimal → Decimal
  | 0, d => d
  | fuel + 1, d =>
      if d.digits ≠ 0 ∧ d.digits % 10 = 0 then trimZeros fuel ⟨d.digits / 10, d.exponent + 1⟩ else d

/-- The same number without trailing zeros in its digits. -/
def trim (d : Decimal) : Decimal :=
  trimZeros (decimalDigits d.digits).length d

/-- Whether the double closest to the decimal has the given magnitude. -/
def readsBack (d : Decimal) (magnitude : Nat) : Bool :=
  FloatFormat.double.nearest (d.digits * Nat.pow 10 d.exponent.toNat)
    (Nat.pow 10 (-d.exponent).toNat) == magnitude

end Decimal

/-- The decimal with `count` digits that reads back as the double of the given magnitude and is
closest to its value `num / den`, if there is one. -/
def closestDecimal? (tie : Tie) (magnitude num den count : Nat) : Option Decimal :=
  let exponent := leadingExponent num den - count + 1
  let n := num * Nat.pow 10 (-exponent).toNat
  let d := den * Nat.pow 10 exponent.toNat
  let below : Decimal := ⟨n / d, exponent⟩
  let above : Decimal := ⟨n / d + 1, exponent⟩
  match below.readsBack magnitude, above.readsBack magnitude with
  | false, false => none
  | true, false => some below
  | false, true => some above
  | true, true =>
      let r := n % d
      if 2 * r < d then some below
      else if d < 2 * r then some above
      else match tie with
        | .up => some above
        | .toEven => if below.digits % 2 = 0 then some below else some above

/-- The shortest decimal that reads back as the number `fraction * 2 ^ exponent`, whose bits
without the sign are `magnitude`. Seventeen digits are enough for every double. -/
def shortestDecimal (tie : Tie) (magnitude fraction : Nat) (exponent : Int) : Decimal :=
  let num := fraction * Nat.pow 2 exponent.toNat
  let den := Nat.pow 2 (-exponent).toNat
  (((List.range 17).findSome? fun i => closestDecimal? tie magnitude num den (i + 1)).getD
    ⟨0, 0⟩).trim

/-! ### Layout -/

/-- How an output format writes floating point numbers. -/
structure FloatStyle where
  /-- Which of two equally close decimals is written. -/
  tie : Tie
  /-- The exponents of the leading digit for which no exponent is written, ends included;
  `none` if an exponent is never written. -/
  positional : Option (Int × Int)
  /-- Whether an integral value in positional form ends in `.0`. -/
  pointZero : Bool
  notANumber : String
  infinite : Bool → String

namespace FloatStyle

def writePositional (style : FloatStyle) (digits : List Char) (exponent : Int) : List Char :=
  let point := Int.ofNat digits.length + exponent
  if point ≤ 0 then
    '0' :: '.' :: List.replicate (-point).toNat '0' ++ digits
  else if 0 ≤ exponent then
    digits ++ List.replicate exponent.toNat '0' ++ (if style.pointZero then ['.', '0'] else [])
  else
    digits.take point.toNat ++ '.' :: digits.drop point.toNat

/-- Writes the digits with a point after the first and a signed exponent. -/
def writeScientific (digits : List Char) (leading : Int) : List Char :=
  let fraction := digits.drop 1
  digits.take 1 ++ (if fraction.isEmpty then [] else '.' :: fraction) ++
    ('e' :: (if leading < 0 then '-' else '+') :: decimalDigits leading.natAbs)

/-- Writes a decimal with the form that its leading exponent asks for. -/
def writeDecimal (style : FloatStyle) (d : Decimal) : List Char :=
  let digits := decimalDigits d.digits
  let leading := Int.ofNat digits.length + d.exponent - 1
  match style.positional with
  | none => style.writePositional digits d.exponent
  | some (least, most) =>
      if least ≤ leading ∧ leading ≤ most then style.writePositional digits d.exponent
      else writeScientific digits leading

/-- The text of a double. The sign of a zero is written. -/
def write (style : FloatStyle) (x : Double) : String :=
  match x.view with
  | .notANumber => style.notANumber
  | .infinite negative => style.infinite negative
  | .finite negative fraction exponent =>
      let d := if fraction = 0 then ⟨0, 0⟩
        else shortestDecimal style.tie x.magnitude fraction exponent
      String.ofList ((if negative then ['-'] else []) ++ style.writeDecimal d)

end FloatStyle

end StagedSql
