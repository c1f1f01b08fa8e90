import StagedSql.Value.Basic

/-!
The bytes that bind a value to a parameter of a given type.

Integers and floats are written big end first. An array is written as its shape, the type of its
items and the items, each after its length.
-/

namespace StagedSql

/-- A type of a parameter that is no array. -/
inductive BaseType where
  | bool | bytea | int8 | int2 | int4 | text | json | float4 | float8 | bpchar | varchar
  | numeric | jsonb
  deriving DecidableEq, Inhabited

namespace BaseType

def name : BaseType → String
  | .bool => "bool"
  | .bytea => "bytea"
  | .int8 => "int8"
  | .int2 => "int2"
  | .int4 => "int4"
  | .text => "text"
  | .json => "json"
  | .float4 => "float4"
  | .float8 => "float8"
  | .bpchar => "bpchar"
  | .varchar => "varchar"
  | .numeric => "numeric"
  | .jsonb => "jsonb"

def all : List BaseType :=
  [.bool, .bytea, .int8, .int2, .int4, .text, .json, .float4, .float8, .bpchar, .varchar,
    .numeric, .jsonb]

def ofName? (name : String) : Option BaseType :=
  all.find? fun t => t.name == name

/-- The number under which a database knows a type. -/
def oid : BaseType → Nat
  | .bool => 16
  | .bytea => 17
  | .int8 => 20
  | .int2 => 21
  | .int4 => 23
  | .text => 25
  | .json => 114
  | .float4 => 700
  | .float8 => 701
  | .bpchar => 1042
  | .varchar => 1043
  | .numeric => 1700
  | .jsonb => 3802

end BaseType

/-- The types of parameters. -/
inductive ParameterType where
  | base (t : BaseType)
  | array (item : BaseType)
  deriving DecidableEq

/-- Why a value cannot be bound. -/
inductive BindError where
  | tooLarge
  | tooSmall
  | arrayForBase (t : BaseType)
  deriving DecidableEq

def BindError.message : BindError → String
  | .tooLarge => "number too large to fit in target type"
  | .tooSmall => "number too small to fit in target type"
  | .arrayForBase t => "cannot bind an array to parameter of type " ++ t.name

/-- A natural in `count` bytes, big end first. -/
def bytesOf (count n : Nat) : List UInt8 :=
  (List.range count).reverse.map fun i => UInt8.ofNat (n / Nat.pow 256 i)

/-- An integer in `count` bytes, in two's complement. -/
def signedBytesOf (count : Nat) (n : Int) : List UInt8 :=
  bytesOf count (n % Nat.pow 256 count).toNat

def utf8Bytes (s : String) : List UInt8 :=
  s.toUTF8.toList

namespace Value

/-- An integer in `count` bytes if it fits there. -/
def narrow (count : Nat) (n : Int) : Except BindError (List UInt8) :=
  let half : Int := (Nat.pow 256 count : Int) / 2
  if half ≤ n then .error .tooLarge
  else if n < -half then .error .tooSmall
  else .ok (signedBytesOf count n)

/-- The bytes of an integer. It is narrowed or widened to the numeric types and written out for
the text types; every other type gets its eight bytes. -/
def intWire (n : Int) : ParameterType → Except BindError (List UInt8)
  | .base .int2 => narrow 2 n
  | .base .int4 => narrow 4 n
  | .base .float4 => .ok (bytesOf 4 (singleOfInt n).toNat)
  | .base .float8 => .ok (bytesOf 8 (Double.ofInt n).bits.toNat)
  | .base .text | .base .varchar => .ok (utf8Bytes (Json.intText n))
  | _ => .ok (signedBytesOf 8 n)

/-- The bytes of a double: four for `float4` and eight for every other type. -/
def floatWire (x : Double) : ParameterType → List UInt8
  | .base .float4 => bytesOf 4 x.toSingle.toNat
  | _ => bytesOf 8 x.bits.toNat

/-- The bytes of a JSON document: its text, after a version byte for `jsonb`. -/
def jsonWire (doc : Json) : ParameterType → List UInt8
  | .base .jsonb => 1 :: utf8Bytes doc.compact
  | _ => utf8Bytes doc.compact

/-- The length of an item and its bytes; a null item has the length -1. -/
def itemBytes : Option (List UInt8) → List UInt8
  | none => signedBytesOf 4 (-1)
  | some bytes => bytesOf 4 bytes.length ++ bytes

/-- The bytes of an array of one dimension with a lower bound of one. -/
def arrayBytes (item : BaseType) (items : List (Option (List UInt8))) : List UInt8 :=
  bytesOf 4 1 ++ bytesOf 4 (if items.any Option.isNone then 1 else 0) ++ bytesOf 4 item.oid ++
    bytesOf 4 items.length ++ bytesOf 4 1 ++ items.flatMap itemBytes

mutual

/-- The bytes that bind a value to a parameter of type `t`; `none` for null. -/
def wire (t : ParameterType) : Value → Except BindError (Option (List UInt8))
  | .null => .ok none
  | .bool b => .ok (some [if b then 1 else 0])
  | .int n => (intWire n.toInt t).map some
  | .float x => .ok (some (floatWire x t))
  | .text s => .ok (some (utf8Bytes s))
  | .json doc => .ok (some (jsonWire doc t))
  | .array items =>
      match t with
      | .base t => .error (.arrayForBase t)
      | .array item => (wireItems item items).map fun bytes => some (arrayBytes item bytes)

def wireItems (item : BaseType) : List Value → Except BindError (List (Option (List UInt8)))
  | [] => .ok []
  | v :: rest => do
      let bytes ← wire (.base item) v
      return bytes :: (← wireItems item rest)

end

end Value

end StagedSql
