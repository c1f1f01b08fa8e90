import Mathlib.Data.Finset.Insert
import StagedSql.Plan.Reading

/-!
Rows that are written out, and the types of their values.

An array is read as an array of the type that its first item with a type has, whatever comes after
it.
-/

namespace StagedSql

open List

lemma typedParam_of_mem_valueRows {types : List (Option String)} {rows : List (List Value)}
    {row : List Expr} (hrow : row ∈ valueRows types rows) {e : Expr} (he : e ∈ row) :
    ∃ v type, e = typedParam v type := by
  cases rows with
  | nil => cases hrow
  | cons first rest =>
    rcases mem_cons.mp hrow with rfl | hrow
    · obtain ⟨x, -, rfl⟩ := mem_map.mp he
      exact ⟨x.1, x.2, rfl⟩
    · obtain ⟨vs, -, rfl⟩ := mem_map.mp hrow
      obtain ⟨v, -, rfl⟩ := mem_map.mp he
      exact ⟨v, none, rfl⟩

/-! ### Types that values share -/

/-- The types that the values of a column have. -/
def valueTypes (rows : List (List Value)) (index : Nat) : List String :=
  rows.filterMap fun row => row[index]?.bind Value.sqlType?

/-- A type holds its own values, and doubles hold integers. -/
def Widens (u t : String) : Prop := u = t ∨ u = "bigint" ∧ t = "double precision"

lemma sharedType?_some_eq_some (seen t : String) (ts : List String) :
    sharedType? (some seen) ts = some t ↔ t ∈ seen :: ts ∧ ∀ u ∈ seen :: ts, Widens u t := by
  induction ts generalizing seen with
  | nil => simp +contextual [sharedType?, Widens, eq_comm]
  | cons next ts ih =>
    simp only [sharedType?, isNumeric, Bool.and_eq_true, Bool.or_eq_true, beq_iff_eq]
    split_ifs with hsame hnumeric
    · subst hsame
      rw [ih]
      simp
    · -- one of the two is the double, and nothing else holds it
      rw [ih]
      simp only [mem_cons, forall_eq_or_imp, Widens]
      grind
    · simp only [mem_cons, forall_eq_or_imp, Widens]
      grind

/-- **The type that is shared is the one of the list that holds all others.** -/
lemma sharedType?_eq_some (t : String) (ts : List String) :
    sharedType? none ts = some t ↔ t ∈ ts ∧ ∀ u ∈ ts, Widens u t := by
  cases ts with
  | nil => simp [sharedType?]
  | cons first ts => rw [sharedType?, sharedType?_some_eq_some]

/-- The type that an expression is read as, if it is cast. -/
def Expr.castType? : Expr → Option String
  | .cast _ type => some type
  | _ => none

/-- **The types of the columns are the casts of the first row.** -/
lemma castType?_typedParams (first : List Value) (types : List (Option String)) :
    ((first.zip types).map fun (v, type) => typedParam v type).map Expr.castType? =
      types.take first.length := by
  induction first generalizing types with
  | nil => simp
  | cons v first ih =>
    cases types with
    | nil => rfl
    | cons type types =>
      have hcast : (typedParam v type).castType? = type := by cases type <;> rfl
      simpa [hcast] using ih types

/-- **The types of columns do not depend on the order of the rows.** The type of a column is
settled by the set of the types of its values: it is the only one, or the double where there are
integers and doubles, and otherwise there is none. With the rows in another order the columns have
the same types, and these are the casts of the first row. -/
theorem valuesType_perm (rows : List (List Value)) :
    (∀ index t, valuesType? rows index = some t ↔
      (valueTypes rows index).toFinset = {t} ∨
        t = "double precision" ∧
          (valueTypes rows index).toFinset = {"bigint", "double precision"}) ∧
    ∀ permuted, rows.Perm permuted →
      (∀ index, valuesType? permuted index = valuesType? rows index) ∧
      ∀ declared, columnTypes permuted declared = columnTypes rows declared ∧
        (valueRows (columnTypes permuted declared) permuted).head?.map (·.map Expr.castType?) =
          permuted.head?.map fun first => (columnTypes rows declared).take first.length := by
  have hsettled : ∀ rows index t, valuesType? rows index = some t ↔
      t ∈ valueTypes rows index ∧ ∀ u ∈ valueTypes rows index, Widens u t :=
    fun _ _ _ => sharedType?_eq_some _ _
  refine ⟨fun index t => ?_, fun permuted hperm => ?_⟩
  · rw [hsettled]
    simp only [Finset.ext_iff, mem_toFinset]
    grind [Widens]
  have htype : ∀ index, valuesType? permuted index = valuesType? rows index := by
    intro index
    have hmem : ∀ t, t ∈ valueTypes rows index ↔ t ∈ valueTypes permuted index :=
      fun _ => (hperm.filterMap _).mem_iff
    refine Option.ext fun t => ?_
    simp only [hsettled, hmem]
  refine ⟨htype, fun declared => ?_⟩
  have hcolumns : columnTypes permuted declared = columnTypes rows declared := by
    simp only [columnTypes, htype]
  refine ⟨hcolumns, ?_⟩
  rw [hcolumns]
  cases permuted with
  | nil => rfl
  | cons first rest => exact congrArg some (castType?_typedParams first _)

/-- Integers, doubles and no value at all, read from either end. -/
theorem valuesType_perm_mixed :
    let rows : List (List Value) := [[.int 1], [.null], [.float (Double.ofInt 2)]]
    rows.Perm rows.reverse ∧ valuesType? rows.reverse 0 = valuesType? rows 0 ∧
      valuesType? rows 0 = some "double precision" := by
  intro rows
  have hperm : rows.Perm rows.reverse := rows.reverse_perm.symm
  exact ⟨hperm, ((valuesType_perm rows).2 _ hperm).1 0, by decide⟩

namespace Value

mutual

/-- The types of the scalars of a value in their order, at any depth. Null has none. -/
def leafTypes : Value → List String
  | .array items => (leafTypesEach items).map (· ++ "[]")
  | v => v.sqlType?.toList

def leafTypesEach : List Value → List String
  | [] => []
  | v :: rest => v.leafTypes ++ leafTypesEach rest

end

/-- A value may stand in an array with items of a type: it is null, it is of this type, or it is an
integer among doubles. -/
def Admitted (t : String) (v : Value) : Prop :=
  v = .null ∨ v.sqlType? = some t ∨ (∃ n, v = .int n) ∧ t = "double precision"

mutual

/-- **The type of a value is that of its first scalar**, by recursion through the arrays. -/
theorem sqlType?_eq_head : ∀ v : Value, v.sqlType? = v.leafTypes.head?
  | .array items => by rw [sqlType?, leafTypes, head?_map, itemType?_eq_head items]
  | .null | .bool _ | .int _ | .float _ | .text _ | .json _ => rfl

theorem itemType?_eq_head : ∀ items : List Value, itemType? items = (leafTypesEach items).head?
  | [] => rfl
  | v :: rest => by
    rw [itemType?, leafTypesEach, head?_append, sqlType?_eq_head v, itemType?_eq_head rest]
    cases v.leafTypes.head? <;> rfl

end

lemma itemType?_eq_head_filterMap (items : List Value) :
    itemType? items = (items.filterMap sqlType?).head? := by
  induction items with
  | nil => rfl
  | cons v rest ih =>
    rw [itemType?, filterMap_cons, ih]
    cases v.sqlType? <;> rfl

/-- The element type of an array is the first type that its items have. -/
lemma array_sqlType?_eq_some {items : List Value} {t : String} :
    (array items).sqlType? = some (t ++ "[]") ↔ (items.filterMap sqlType?).head? = some t := by
  rw [sqlType?, itemType?_eq_head_filterMap, Option.map_eq_some_iff]
  simp

/-- Only integers have the type of integers: that of an array ends in a bracket. -/
lemma exists_int_of_sqlType? {v : Value} (h : v.sqlType? = some "bigint") : ∃ n, v = .int n := by
  cases v with
  | int n => exact ⟨n, rfl⟩
  | array items =>
    obtain ⟨t, -, ht⟩ := Option.map_eq_some_iff.mp h
    have hlast := congrArg (·.toList.getLast?) ht
    simp at hlast
  | _ => simp [sqlType?] at h

lemma ne_null_of_sqlType? {v : Value} {u : String} (h : v.sqlType? = some u) : v ≠ .null := by
  rintro rfl
  cases h

lemma Admitted.exists_sqlType? {v : Value} {t : String} (h : v.Admitted t) (hnull : v ≠ .null) :
    ∃ u, v.sqlType? = some u := by
  rcases h with hv | ht | ⟨⟨n, rfl⟩, -⟩
  · exact (hnull hv).elim
  · exact ⟨t, ht⟩
  · exact ⟨_, rfl⟩

lemma admitted_iff {v : Value} {u t : String} (h : v.sqlType? = some u) :
    v.Admitted t ↔ Widens u t := by
  constructor
  · rintro (rfl | ht | ⟨⟨n, rfl⟩, rfl⟩)
    · cases h
    · exact .inl (Option.some.inj (h.symm.trans ht))
    · exact .inr ⟨(Option.some.inj h).symm, rfl⟩
  · rintro (rfl | ⟨rfl, rfl⟩)
    · exact .inr (.inl h)
    · exact .inr (.inr ⟨exists_int_of_sqlType? h, rfl⟩)

end Value

/-- **What the type of an array says of its items.** It is the type of the first scalar in it. All
items but nulls fit the element type if and only if each of them holds a scalar and the element type
is the one that they share as the values of a column do. The type is the same for every order of the
items if and only if all that hold a scalar have the element type. -/
theorem arrayType_admits_iff (items : List Value) :
    (Value.array items).sqlType? = (Value.array items).leafTypes.head? ∧
    ∀ t, (Value.array items).sqlType? = some (t ++ "[]") →
      ((∀ v ∈ items, v ≠ .null → v.Admitted t) ↔
        sharedType? none (items.filterMap Value.sqlType?) = some t ∧
          ∀ v ∈ items, v ≠ .null → v.leafTypes ≠ []) ∧
      ((∀ permuted, items.Perm permuted → (Value.array permuted).sqlType? = some (t ++ "[]")) ↔
        ∀ v ∈ items, v.leafTypes ≠ [] → v.sqlType? = some t) := by
  refine ⟨Value.sqlType?_eq_head _, fun t ht => ?_⟩
  have hfirst := Value.array_sqlType?_eq_some.mp ht
  have htyped : ∀ v : Value, v.leafTypes ≠ [] ↔ ∃ u, v.sqlType? = some u := by
    intro v
    rw [v.sqlType?_eq_head]
    cases v.leafTypes <;> simp
  simp only [htyped]
  refine ⟨?_, fun h v hv => ?_, fun h permuted hperm => ?_⟩
  · rw [sharedType?_eq_some]
    simp only [mem_filterMap]
    constructor
    · intro h
      refine ⟨⟨mem_filterMap.mp (mem_of_head? hfirst), ?_⟩, fun v hv hnull => ?_⟩
      · rintro u ⟨v, hv, hu⟩
        exact (Value.admitted_iff hu).mp (h v hv (Value.ne_null_of_sqlType? hu))
      · exact (h v hv hnull).exists_sqlType? hnull
    · rintro ⟨⟨-, h⟩, hsome⟩ v hv hnull
      obtain ⟨u, hu⟩ := hsome v hv hnull
      exact (Value.admitted_iff hu).mpr (h u ⟨v, hv, hu⟩)
  · -- the item is put first
    rintro ⟨u, hu⟩
    obtain ⟨before, after, rfl⟩ := append_of_mem hv
    have hput := Value.array_sqlType?_eq_some.mp (h _ perm_middle)
    rwa [filterMap_cons_some hu, head?_cons, ← hu] at hput
  · rw [Value.array_sqlType?_eq_some]
    have htypes := hperm.filterMap Value.sqlType?
    obtain ⟨u, hu⟩ : ∃ u, (permuted.filterMap Value.sqlType?).head? = some u := by
      have hmem := htypes.mem_iff.mp (mem_of_head? hfirst)
      exact Option.isSome_iff_exists.mp (isSome_head?.mpr (ne_nil_of_mem hmem))
    obtain ⟨v, hv, hvu⟩ := mem_filterMap.mp (htypes.mem_iff.mpr (mem_of_head? hu))
    rw [hu, ← hvu, h v hv ⟨u, hvu⟩]

/-- An integer comes before a double, which the type of the array does not hold, and the type
changes with their order. -/
theorem array_of_integers_holds_double :
    let items : List Value := [.int 1, .float (Double.ofInt 2)]
    (Value.array items).sqlType? = some ("bigint" ++ "[]") ∧
      (∃ v ∈ items, v ≠ .null ∧ ¬ v.Admitted "bigint") ∧
      (Value.array items.reverse).sqlType? = some "double precision[]" := by
  refine ⟨by decide, ⟨.float (Double.ofInt 2), by simp, by simp, ?_⟩, by decide⟩
  simp [Value.Admitted, Value.sqlType?]

/-- An array without items has no type, and the type of an array of integers does not hold it. -/
example : (Value.array [.int 1, .array []]).sqlType? = some "bigint[]" ∧
    (Value.array []).sqlType? = none := by
  decide

/-- Nulls have no say, also inside an array. -/
theorem arrayType_admits_iff_nested :
    let items : List Value := [.null, .array [.null, .int 1], .array [.int 2]]
    (Value.array items).sqlType? = some ("bigint[]" ++ "[]") ∧
      (∀ v ∈ items, v ≠ .null → v.Admitted "bigint[]") ∧
      (Value.array items.reverse).sqlType? = some ("bigint[]" ++ "[]") := by
  intro items
  have htype : (Value.array items).sqlType? = some ("bigint[]" ++ "[]") := by decide
  have hscalar : ∀ v ∈ items, v ≠ .null → v.leafTypes ≠ [] := by
    simp [items, Value.leafTypes, Value.leafTypesEach, Value.sqlType?]
  have hall : ∀ v ∈ items, v.leafTypes ≠ [] → v.sqlType? = some "bigint[]" := by
    simp [items, Value.leafTypes, Value.sqlType?, Value.itemType?]
  obtain ⟨hadmits, horder⟩ := (arrayType_admits_iff items).2 _ htype
  exact ⟨htype, hadmits.mpr ⟨by decide, hscalar⟩, horder.mpr hall _ items.reverse_perm.symm⟩

end StagedSql
