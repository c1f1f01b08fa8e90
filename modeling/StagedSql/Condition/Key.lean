import StagedSql.Error
import StagedSql.Lists

/-!
Keys of lookups, such as `actors__address__country__ct`.

A key is a list of segments with two underscores between them: the links to follow, the field at
their end and, if the last of several segments names one, an operator.
-/

namespace StagedSql

/-- How the field of a lookup is compared with its operand. -/
inductive Operator where
  | eq | ne | lt | gt | le | ge
  | isIn
  | contains
  | notIn
  | isNull
  | overlap
  deriving DecidableEq

namespace Operator

/-- All operators. -/
def all : List Operator :=
  [.eq, .ne, .lt, .gt, .le, .ge, .isIn, .contains, .notIn, .isNull, .overlap]

/-- The name of an operator in a key. -/
def suffix : Operator → String
  | .eq => "eq"
  | .ne => "ne"
  | .lt => "lt"
  | .gt => "gt"
  | .le => "le"
  | .ge => "ge"
  | .isIn => "in"
  | .contains => "ct"
  | .notIn => "ni"
  | .isNull => "nu"
  | .overlap => "ov"

/-- The operator of a name. -/
def ofSuffix? (s : String) : Option Operator :=
  all.find? fun op => op.suffix == s

end Operator

/-- What a key of a lookup says. -/
structure LookupKey where
  /-- The columns that are followed to other relations, outermost first. -/
  joins : List String
  field : String
  op : Operator
  deriving DecidableEq

namespace LookupKey

/-- The segments of a key. -/
def segments (key : String) : List String :=
  (splitAtPair '_' key.toList).map String.ofList

/-- The operator that segments end in, and the segments before it. A single segment is a field,
whatever its name. -/
def splitOperator (segments : List String) : List String × Operator :=
  match segments.getLast?.bind Operator.ofSuffix? with
  | some op => if 1 < segments.length then (segments.dropLast, op) else (segments, .eq)
  | none => (segments, .eq)

/-- Takes a key apart. No segment may be empty. -/
def parse (key : String) : Except Error LookupKey :=
  let segments := segments key
  if segments.any (·.isEmpty) then .error (.invalidLookup key "" .emptySegment)
  else
    let (path, op) := splitOperator segments
    .ok ⟨path.dropLast, path.getLast?.getD "", op⟩

end LookupKey

end StagedSql
