import Mathlib.Algebra.Group.Int.Defs
import Mathlib.Data.List.Basic
import StagedSql.Value.Basic

/-!
Documents as values, and back.

A document is read as a value by its own kind, and as the first kind of value that it fits. Both
give the same value, and it is written as the document that was read unless this holds an integer
that 64 bits hold without a sign only.
-/

namespace StagedSql

mutual

/-- The integers of a document have 64 bits with a sign, but for those within objects. -/
def Json.Signed : Json → Prop
  | .int n => -2 ^ 63 ≤ n ∧ n < 2 ^ 63
  | .arr items => SignedEach items
  | _ => True

def Json.SignedEach : List Json → Prop
  | [] => True
  | j :: rest => j.Signed ∧ SignedEach rest

end

lemma int64?_of_signed {n : Int} (h : -2 ^ 63 ≤ n ∧ n < 2 ^ 63) :
    int64? n = some (Int64.ofInt n) := if_pos h

lemma int64?_of_not_signed {n : Int} (h : ¬ (-2 ^ 63 ≤ n ∧ n < 2 ^ 63)) : int64? n = none :=
  if_neg h

namespace Value

mutual

/-- By recursion on the document: an array is given back if its items are. -/
theorem toJson_ofJson_iff : ∀ j : Json, (ofJson j).toJson = j ↔ j.Signed
  | .int n => by
    by_cases h : -2 ^ 63 ≤ n ∧ n < 2 ^ 63
    · rw [ofJson, int64?_of_signed h]
      exact iff_of_true (congrArg Json.int (Int64.toInt_ofInt_of_le h.1 h.2)) h
    · rw [ofJson, int64?_of_not_signed h]
      exact iff_of_false (by simp [toJson]) h
  | .arr items => by simp [ofJson, toJson, Json.Signed, toJsonItems_ofJsonItems_iff items]
  | .null | .bool _ | .float _ | .str _ | .obj _ => by simp [ofJson, toJson, Json.Signed]

theorem toJsonItems_ofJsonItems_iff : ∀ items : List Json,
    toJsonItems (ofJsonItems items) = items ↔ Json.SignedEach items
  | [] => by simp [ofJsonItems, toJsonItems, Json.SignedEach]
  | j :: rest => by
    simp [ofJsonItems, toJsonItems, Json.SignedEach, toJson_ofJson_iff j,
      toJsonItems_ofJsonItems_iff rest]

end

mutual

/-- By recursion on the document: no kind that is tried before its own fits it. -/
theorem firstFit_eq : ∀ j : Json, firstFit j = some (ofJson j)
  | .int n => by
    by_cases h : -2 ^ 63 ≤ n ∧ n < 2 ^ 63
    · simp [firstFit, firstOf, Kind.read, ofJson, int64?_of_signed h]
    · simp [firstFit, firstOf, Kind.read, ofJson, int64?_of_not_signed h]
  | .arr items => by simp [firstFit, firstOf, Kind.read, ofJson, firstFits_eq items]
  | .null | .bool _ | .float _ | .str _ | .obj _ => rfl

theorem firstFits_eq : ∀ items : List Json, firstFits items = some (ofJsonItems items)
  | [] => rfl
  | j :: rest => by simp [firstFits, ofJsonItems, firstFit_eq j, firstFits_eq rest]

end

/-- **A document is given back exactly if its integers have 64 bits with a sign**, but for those
within objects, which are kept as they are. Read as the first kind that it fits, it is the same
value. -/
theorem ofJson_gives_back (j : Json) :
    ((ofJson j).toJson = j ↔ j.Signed) ∧ firstFit j = some (ofJson j) :=
  ⟨toJson_ofJson_iff j, firstFit_eq j⟩

/-- The largest integer of 64 bits without a sign is given back as a double, as itself within an
object. -/
theorem ofJson_rounds_largest :
    (ofJson (.int (2 ^ 64 - 1))).toJson = .float (Double.ofInt (2 ^ 64 - 1)) ∧
      (ofJson (.obj [("id", .int (2 ^ 64 - 1))])).toJson = .obj [("id", .int (2 ^ 64 - 1))] :=
  ⟨rfl, rfl⟩

end Value

end StagedSql
