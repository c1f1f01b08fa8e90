/-!
Binary floating point numbers, held by their bits. Numbers are rounded to the nearest value of a
format, a tie going to the even fraction.
-/

namespace StagedSql

/-- The quotient of two naturals rounded to the nearest natural, a half going to the even one. -/
def roundHalfEven (num den : Nat) : Nat :=
  let q := num / den
  let r := num % den
  if 2 * r < den then q
  else if den < 2 * r then q + 1
  else if q % 2 = 0 then q else q + 1

/-! ### Formats -/

/-- A binary interchange format, given by the widths of its fraction and of its exponent. -/
structure FloatFormat where
  fractionBits : Nat
  exponentBits : Nat
  deriving DecidableEq

namespace FloatFormat

def double : FloatFormat := ⟨52, 11⟩

def single : FloatFormat := ⟨23, 8⟩

/-- The power of two that the last fraction bit of the smallest numbers stands for. -/
def minExponent (f : FloatFormat) : Int :=
  2 - Int.pow 2 (f.exponentBits - 1) - f.fractionBits

/-- The bits of positive infinity, which follow those of the largest finite number. -/
def infinityBits (f : FloatFormat) : Nat :=
  (Nat.pow 2 f.exponentBits - 1) * Nat.pow 2 f.fractionBits

/-- The power of two that the last fraction bit of the number closest to `num / den` stands
for. -/
def lastPlace (f : FloatFormat) (num den : Nat) : Int :=
  let l : Int := Int.ofNat num.log2 - Int.ofNat den.log2
  let top := if den * Nat.pow 2 l.toNat ≤ num * Nat.pow 2 (-l).toNat then l else l - 1
  max f.minExponent (top - f.fractionBits)

/-- The bits of the non-negative number closest to `num / den`, a tie going to the even
fraction. A quotient too large for the format gives infinity. -/
def nearest (f : FloatFormat) (num den : Nat) : Nat :=
  if num = 0 then 0
  else
    let q := f.lastPlace num den
    let m := roundHalfEven (num * Nat.pow 2 (-q).toNat) (den * Nat.pow 2 q.toNat)
    -- The leading bit of a normal fraction carries into the exponent field.
    min ((q - f.minExponent).toNat * Nat.pow 2 f.fractionBits + m) f.infinityBits

end FloatFormat

/-! ### Doubles -/

/-- A 64-bit floating point number. Two of them are equal when their bits are. -/
structure Double where
  bits : UInt64
  deriving DecidableEq, Inhabited

/-- What the bits of a double say. -/
inductive DoubleView where
  | notANumber
  | infinite (negative : Bool)
  /-- The number `fraction * 2 ^ exponent`, negated if `negative`. -/
  | finite (negative : Bool) (fraction : Nat) (exponent : Int)
  deriving DecidableEq

namespace Double

def signBit (x : Double) : Bool :=
  decide (Nat.pow 2 63 ≤ x.bits.toNat)

def magnitude (x : Double) : Nat :=
  x.bits.toNat % Nat.pow 2 63

/-- The double with a sign and the bits of a magnitude. -/
def ofMagnitude (negative : Bool) (magnitude : Nat) : Double :=
  ⟨UInt64.ofNat (magnitude % Nat.pow 2 63 + if negative then Nat.pow 2 63 else 0)⟩

/-- Reads sign, exponent and fraction off the bits. -/
def view (x : Double) : DoubleView :=
  let exponent := x.magnitude / Nat.pow 2 52
  let fraction := x.magnitude % Nat.pow 2 52
  if exponent = 2047 then
    if fraction = 0 then .infinite x.signBit else .notANumber
  else if exponent = 0 then .finite x.signBit fraction (-1074)
  else .finite x.signBit (Nat.pow 2 52 + fraction) (Int.ofNat exponent - 1075)

def isFinite (x : Double) : Bool :=
  match x.view with
  | .finite .. => true
  | _ => false

/-- The double closest to `num / den`, negated if `negative`. -/
def ofQuotient (negative : Bool) (num den : Nat) : Double :=
  ofMagnitude negative (FloatFormat.double.nearest num den)

/-- The double closest to an integer. -/
def ofInt (n : Int) : Double :=
  ofQuotient (decide (n < 0)) n.natAbs 1

/-- How far a decimal point may lie from the digits before the number is sure to be infinite or
zero as a double. -/
def decimalReach : Int := 400

/-- The double closest to `digits * 10 ^ exponent`, negated if `negative`; `length` bounds the
number of decimal digits of `digits`. Exponents far out of range are decided without computing
the power. -/
def ofDecimal (negative : Bool) (digits length : Nat) (exponent : Int) : Double :=
  if digits = 0 then ofMagnitude negative 0
  else if decimalReach < exponent then ofMagnitude negative FloatFormat.double.infinityBits
  else if exponent + length < -decimalReach then ofMagnitude negative 0
  else ofQuotient negative (digits * Nat.pow 10 exponent.toNat) (Nat.pow 10 (-exponent).toNat)

/-- The bits of the 32-bit number closest to a double. A NaN keeps its sign and the top of its
payload and becomes quiet. -/
def toSingle (x : Double) : UInt32 :=
  let sign := if x.signBit then Nat.pow 2 31 else 0
  match x.view with
  | .notANumber =>
      let payload := x.magnitude % Nat.pow 2 52 / Nat.pow 2 29
      UInt32.ofNat (sign + FloatFormat.single.infinityBits + Nat.pow 2 22 +
        payload % Nat.pow 2 22)
  | .infinite _ => UInt32.ofNat (sign + FloatFormat.single.infinityBits)
  | .finite _ fraction exponent =>
      UInt32.ofNat (sign +
        FloatFormat.single.nearest (fraction * Nat.pow 2 exponent.toNat)
          (Nat.pow 2 (-exponent).toNat))

end Double

/-- The bits of the 32-bit number closest to an integer. -/
def singleOfInt (n : Int) : UInt32 :=
  UInt32.ofNat ((if n < 0 then Nat.pow 2 31 else 0) + FloatFormat.single.nearest n.natAbs 1)

end StagedSql
