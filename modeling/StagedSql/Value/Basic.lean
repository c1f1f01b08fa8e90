import StagedSql.Json.Writer

/-!
Values bound to the parameters of a statement.
-/

namespace StagedSql

inductive Value where
  | null
  | bool (b : Bool)
  | int (n : Int64)
  | float (x : Double)
  | text (s : String)
  | array (items : List Value)
  | json (doc : Json)
  deriving Inhabited

/-- The integer of 64 bits with a given value, if it is in range. -/
def int64? (n : Int) : Option Int64 :=
  if -Int.pow 2 63 ≤ n ∧ n < Int.pow 2 63 then some (Int64.ofInt n) else none

namespace Value

/-! ### JSON -/

mutual

/-- The value of a JSON document: an array becomes an array of values, an object stays a
document. An integer beyond the signed 64 bits becomes the nearest double. -/
def ofJson : Json → Value
  | .null => .null
  | .bool b => .bool b
  | .int n =>
      match int64? n with
      | some i => .int i
      | none => .float (Double.ofInt n)
  | .float x => .float x
  | .str s => .text s
  | .arr items => .array (ofJsonItems items)
  | .obj members => .json (.obj members)

def ofJsonItems : List Json → List Value
  | [] => []
  | j :: rest => ofJson j :: ofJsonItems rest

end

mutual

/-- A value written as JSON. -/
def toJson : Value → Json
  | .null => .null
  | .bool b => .bool b
  | .int n => .int n.toInt
  | .float x => .float x
  | .text s => .str s
  | .array items => .arr (toJsonItems items)
  | .json doc => doc

def toJsonItems : List Value → List Json
  | [] => []
  | v :: rest => v.toJson :: toJsonItems rest

end

/-- The kinds of values, as they are declared. -/
inductive Kind where
  | null | bool | int | float | text | array | json

/-- A document as a value of a kind, given what its items are as values. -/
def Kind.read (items : Option (List Value)) : Kind → Json → Option Value
  | .null, .null => some .null
  | .bool, .bool b => some (.bool b)
  | .int, .int n => (int64? n).map .int
  | .float, .int n => some (.float (Double.ofInt n))
  | .float, .float x => some (.float x)
  | .text, .str s => some (.text s)
  | .array, .arr _ => items.map .array
  | .json, j => some (.json j)
  | _, _ => none

/-- The value of the first kind that the document fits. -/
def firstOf (items : Option (List Value)) (j : Json) : Option Value :=
  [Kind.null, .bool, .int, .float, .text, .array, .json].findSome? (Kind.read items · j)

mutual

/-- The value of a document that does not say its kind. -/
def firstFit : Json → Option Value
  | .arr items => firstOf (firstFits items) (.arr items)
  | j => firstOf none j

def firstFits : List Json → Option (List Value)
  | [] => some []
  | j :: rest => do return (← firstFit j) :: (← firstFits rest)

end

/-! ### Text -/

/-- Numbers in plain text: a tie between two shortest decimals goes up, an exponent is never
written, and an integral value has no fraction. -/
def floatStyle : FloatStyle where
  tie := .up
  positional := none
  pointZero := false
  notANumber := "NaN"
  infinite negative := if negative then "-inf" else "inf"

mutual

/-- The plain text of a value. The items of an array stand between braces as they are. -/
def plainText : Value → String
  | .null => ""
  | .bool true => "true"
  | .bool false => "false"
  | .int n => Json.intText n.toInt
  | .float x => floatStyle.write x
  | .text s => s
  | .array items => "\x7b" ++ ",".intercalate (plainTexts items) ++ "\x7d"
  | .json doc => doc.compact

def plainTexts : List Value → List String
  | [] => []
  | v :: rest => v.plainText :: plainTexts rest

end

/-! ### Types -/

mutual

/-- The SQL type that a parameter with this value is read as. Null has none; an array has the
type of its first item that has one. -/
def sqlType? : Value → Option String
  | .null => none
  | .bool _ => some "boolean"
  | .int _ => some "bigint"
  | .float _ => some "double precision"
  | .text _ => some "text"
  | .json _ => some "jsonb"
  | .array items => (itemType? items).map (· ++ "[]")

/-- The type of the first value of a list that has one. -/
def itemType? : List Value → Option String
  | [] => none
  | v :: rest =>
      match v.sqlType? with
      | some t => some t
      | none => itemType? rest

end

end Value

end StagedSql
