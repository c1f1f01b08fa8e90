import StagedSql.Condition.ToSql
import StagedSql.Proofs.Selection.Objects

/-!
What a condition says of a row.

The truth value of a condition on a row of a relation is defined here from the contents of the
tables and without any SQL (`Condition.truth`). It is true, false or unknown, which is `none`:
nothing is known of a comparison with null.
-/

namespace StagedSql

/-! ### Comparisons -/

/-- The outcome of a comparison of two values, unknown if one of them is null. -/
def comparison (x v : Value) (outcome : Bool) : Option Bool :=
  if x.isNull || v.isNull then none else some outcome

/-- Whether a value is one of a list. If it is not found, a null on either side leaves it
unknown. -/
def Operators.isOneOf (ops : Operators) (x : Value) (items : List Value) : Option Bool :=
  if items.any (ops.same x) then some true
  else if items.any fun v => x.isNull || v.isNull then none
  else some false

/-- **The comparison of the value of a field with an operand.** Equality with null asks whether the
value is null. Operands that an operator does not take leave it unknown. -/
def Operator.truth (ops : Operators) (x : Value) : Operator → Value → Option Bool
  | .eq, v => if v.isNull then some x.isNull else comparison x v (ops.equal x v)
  | .ne, v => if v.isNull then some (!x.isNull) else comparison x v (!ops.equal x v)
  | .lt, v => comparison x v (ops.less x v)
  | .gt, v => comparison x v (ops.less v x)
  | .le, v => comparison x v (!ops.less v x)
  | .ge, v => comparison x v (!ops.less x v)
  | .isIn, .array items => ops.isOneOf x items
  | .notIn, .array items => (ops.isOneOf x items).map fun b => !b
  | .contains, .text s =>
    comparison x (.text s) (ops.like x (.text ("%" ++ escapeLike s ++ "%")) '\\')
  | .isNull, .bool b => some (x.isNull == b)
  | .overlap, .array items => comparison x (.array items) (ops.overlap x (.array items))
  | _, _ => none

/-! ### Paths -/

/-- Whether a row of `related` is the one, or one of those, that a column leads to from a row of
`owner`: a forward column holds its primary key, and a reverse column stands for the rows that hold
the primary key of the owner. -/
def Column.links (ops : Operators) (c : Column) (owner related : Relation)
    (values row : String → Value) : Bool :=
  match c.kind with
  | .scalar => false
  | .forward _ => ops.same (row related.primaryKey) (values c.name)
  | .reverse _ via => ops.same (row via) (values owner.primaryKey)

section Paths

variable (ops : Operators) (schema : Schema) (db : Database)

/-- **Rows along a path of columns**: each column leads from a row to the next one. -/
inductive Chain : List String → Relation → (String → Value) → (String → Value) → Prop
  | here (r : Relation) (values : String → Value) : Chain [] r values values
  | step {name : String} {rest : List String} {r t : Relation} {c : Column}
      {values row last : String → Value} (hlink : schema.link? r name = some (c, t))
      (hrow : row ∈ db.rows t.name) (hlinks : c.links ops r t values row = true)
      (hrest : Chain rest t row last) : Chain (name :: rest) r values last

/-- A path leads to a row that is known to meet a test. -/
def Reaches (test : (String → Value) → Option Bool) (path : List String) (r : Relation)
    (values : String → Value) : Prop :=
  ∃ last, Chain ops schema db path r values last ∧ test last = some true

variable {ops schema db} {test : (String → Value) → Option Bool} {r : Relation}
  {values : String → Value}

lemma reaches_nil : Reaches ops schema db test [] r values ↔ test values = some true := by
  constructor
  · rintro ⟨last, ⟨⟩, h⟩
    exact h
  · exact fun h => ⟨values, .here r values, h⟩

lemma reaches_cons {name : String} {rest : List String} :
    Reaches ops schema db test (name :: rest) r values ↔
      ∃ c t, schema.link? r name = some (c, t) ∧ ∃ row ∈ db.rows t.name,
        c.links ops r t values row = true ∧ Reaches ops schema db test rest t row := by
  constructor
  · rintro ⟨last, hchain, htest⟩
    cases hchain with
    | step hlink hrow hlinks hrest => exact ⟨_, _, hlink, _, hrow, hlinks, last, hrest, htest⟩
  · rintro ⟨c, t, hlink, row, hrow, hlinks, last, hrest, htest⟩
    exact ⟨last, .step hlink hrow hlinks hrest, htest⟩

/-- What a path leads to can be found out by trying all rows. -/
instance decidableReaches (test : (String → Value) → Option Bool) : ∀ (path : List String)
    (r : Relation) (values : String → Value), Decidable (Reaches ops schema db test path r values)
  | [], _, _ => decidable_of_iff' _ reaches_nil
  | name :: rest, r, values =>
    match h : schema.link? r name with
    | none => isFalse fun hr => by
      obtain ⟨c, t, hlink, -⟩ := reaches_cons.mp hr
      rw [h] at hlink
      cases hlink
    | some (c, t) =>
      have := decidableReaches test rest t
      decidable_of_iff (∃ row ∈ db.rows t.name,
          c.links ops r t values row = true ∧ Reaches ops schema db test rest t row) <| by
        rw [reaches_cons, h]
        simp

end Paths

/-! ### Conditions -/

section Conditions

variable (ops : Operators) (schema : Schema) (db : Database)

/-- What a test at the end of a path says of a row: without links it is the test of the row itself,
and otherwise that there are linked rows, the last of which is known to meet the test. -/
def pathTruth (test : (String → Value) → Option Bool) (path : List String) (r : Relation)
    (values : String → Value) : Option Bool :=
  if path = [] then test values else some (decide (Reaches ops schema db test path r values))

/-- What a lookup says of a row: the comparison of the field at the end of its links. -/
def LookupKey.truth (path : LookupKey) (v : Value) (r : Relation) (values : String → Value) :
    Option Bool :=
  pathTruth ops schema db (fun row => path.op.truth ops (row path.field) v) path.joins r values

variable {ops schema db} in
lemma pathTruth_eq_true {test : (String → Value) → Option Bool} {path : List String} {r : Relation}
    {values : String → Value} :
    pathTruth ops schema db test path r values = some true ↔
      Reaches ops schema db test path r values := by
  rw [pathTruth]
  split
  · rename_i h
    rw [h, reaches_nil]
  · simp

mutual

/-- **The truth value of a condition on a row of a relation.** Conditions that are not made of
comparisons with values are unknown. -/
def Condition.truth (r : Relation) (values : String → Value) : Condition → Option Bool
  | .lookup key (.value v) =>
    match LookupKey.parse key with
    | .ok path => path.truth ops schema db v r values
    | .error _ => none
  | .lookup _ _ => none
  | .all items => (Condition.truths r values items).foldr bothTrue (some true)
  | .any items => (Condition.truths r values items).foldr eitherTrue (some false)
  | .not c => (c.truth r values).map fun b => !b

def Condition.truths (r : Relation) (values : String → Value) :
    List Condition → List (Option Bool)
  | [] => []
  | c :: rest => c.truth r values :: Condition.truths r values rest

end

end Conditions

mutual

/-- Whether a condition compares with values only. -/
def Condition.OfValues : Condition → Prop
  | .lookup _ operand => ∃ v, operand = .value v
  | .all items => Condition.AreOfValues items
  | .any items => Condition.AreOfValues items
  | .not c => c.OfValues

def Condition.AreOfValues : List Condition → Prop
  | [] => True
  | c :: rest => c.OfValues ∧ Condition.AreOfValues rest

end

/-! ### Tables with given contents -/

/-- A row gives the stored columns of a relation their values. -/
def Row.Gives (row : Row) (r : Relation) (values : String → Value) : Prop :=
  ∀ c ∈ r.storedNames, row.cell? c = some (values c)

/-- **Tables with the contents of a database**: the table of each relation has its rows in order.
There may be more columns and more tables. -/
def Tables.Hold (ts : Tables) (schema : Schema) (db : Database) : Prop :=
  ∀ r ∈ schema.relations, ∃ t, ts r.name = some t ∧
    List.Forall₂ (fun row values => row.Gives r values) t.rows (db.rows r.name)

end StagedSql
