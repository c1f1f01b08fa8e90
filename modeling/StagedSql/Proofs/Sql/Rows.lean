import Mathlib.Data.List.Sort
import StagedSql.Proofs.Plan.Runs
import StagedSql.Proofs.Sql.Evaluation

/-!
How the rows of a SELECT come about.
-/

namespace StagedSql

open List Join

variable {α β ι : Type} {env : Env} {l : List α} {ops : Operators} {ts : Tables} {joins : List Join}
  {sources : List (String × List String)} {test : α → Option Bool} {level : Level} {name : String}

/-! ### Lists of results -/

lemma mapM_eq_some_map {f : α → Option β} {g : α → β}
    (h : ∀ a ∈ l, f a = some (g a)) : l.mapM f = some (l.map g) := by
  induction l with
  | nil => rfl
  | cons a rest ih =>
    simp_all

/-- A step on each element and then a function that takes lists apart take lists apart. -/
lemma mapM_flatten_append {γ : Type} (step : α → Option (List β)) {next : List β → Option (List γ)}
    (hnext : ∀ a b, next (a ++ b) = (next a).bind fun c => (next b).bind fun d => some (c ++ d))
    (xs ys : List α) :
    (((xs ++ ys).mapM step).bind fun joined => next joined.flatten) =
      ((xs.mapM step).bind fun joined => next joined.flatten).bind fun a =>
        ((ys.mapM step).bind fun joined => next joined.flatten).bind fun b => some (a ++ b) := by
  rw [mapM_append]
  cases xs.mapM step with
  | none => rfl
  | some a =>
    cases ys.mapM step with
    | none =>
      simp
    | some b =>
      simp_all

lemma filterOption_map_some {f : ι → α} {keep : ι → Bool} {is : List ι}
    (h : ∀ i ∈ is, test (f i) = some (keep i)) :
    filterOption test (is.map f) = some ((is.filter keep).map f) := by
  induction is with
  | nil => rfl
  | cons i rest ih =>
    rw [map_cons, filterOption, h i (by simp), ih fun k hk => h k (by simp [hk]), filter_cons]
    cases keep i <;> rfl

lemma filterOption_eq {keep : α → Bool}
    (h : ∀ a ∈ l, test a = some (keep a)) : filterOption test l = some (l.filter keep) := by
  have hmap : filterOption test (l.map id) = some ((l.filter keep).map id) :=
    filterOption_map_some h
  rwa [map_id, map_id] at hmap

lemma Operators.sorted_unordered (ops : Operators) (l : List α) :
    ops.sorted (l.map fun a => ([], a)) = l := by
  rw [Operators.sorted, mergeSort_of_pairwise]
  · rw [map_map]
    exact map_id l
  · refine pairwise_map.mpr (pairwise_of_forall fun a b => ?_)
    rw [Operators.keysLe]
    simp

lemma Operators.sorted_map (ops : Operators) (f : α → β) (keys : α → List (Value × Bool))
    (l : List α) :
    ops.sorted (l.map fun a => (keys a, f a)) =
      (ops.sorted (l.map fun a => (keys a, a))).map f := by
  have hmap : (l.map fun a => (keys a, a)).map (Prod.map id f) = l.map fun a => (keys a, f a) := by
    rw [map_map]
    rfl
  have hsort : ((l.map fun a => (keys a, a)).mergeSort fun a b => ops.keysLe a.1 b.1).map
      (Prod.map id f) = (l.map fun a => (keys a, f a)).mergeSort fun a b => ops.keysLe a.1 b.1 := by
    rw [← hmap]
    exact map_mergeSort fun _ _ _ _ => rfl
  rw [Operators.sorted, Operators.sorted, ← hsort, map_map, map_map]
  rfl

lemma Operators.mem_sorted {keys : α → List (Value × Bool)} {a : α}
    (h : a ∈ ops.sorted (l.map fun a => (keys a, a))) : a ∈ l := by
  obtain ⟨e, he, rfl⟩ := mem_map.mp h
  obtain ⟨b, hb, rfl⟩ := mem_map.mp ((mergeSort_perm _ _).mem_iff.mp he)
  exact hb

lemma pageOf_none (l : List α) : pageOf none none l = l := by
  simp [pageOf]

lemma pageOf_sublist (limit offset : Option UInt64) (l : List α) :
    (pageOf limit offset l).Sublist l := by
  cases limit with
  | none => exact drop_sublist _ _
  | some n => exact (take_sublist _ _).trans (drop_sublist _ _)

lemma pageOf_map (limit offset : Option UInt64) (f : α → β) (l : List α) :
    pageOf limit offset (l.map f) = (pageOf limit offset l).map f := by
  cases limit <;> simp [pageOf, map_drop, map_take]

lemma Row.renamed_nil : Row.renamed [] = id := by
  funext row
  simp [Row.renamed]

/-! ### Joins -/

lemma Join.levels_append_joins (first second : List Join) (levels : List Level) :
    Join.levels ops ts env (first ++ second) levels =
      (Join.levels ops ts env first levels).bind (Join.levels ops ts env second) := by
  induction first generalizing levels with
  | nil => rfl
  | cons j rest ih =>
    obtain ⟨kind, lateral, item, condition⟩ := j
    rw [cons_append, Join.levels, Join.levels]
    cases FromItem.columns ts.catalog item with
    | none => rfl
    | some columns =>
      simp only [Option.bind_eq_bind, Option.bind_some]
      rw [Option.bind_assoc]
      congr 1
      funext joined
      exact ih _

lemma Join.sources_append (catalog : Catalog) (first second : List Join) :
    Join.sources catalog (first ++ second) = (Join.sources catalog first).bind fun a =>
        (Join.sources catalog second).bind fun b => some (a ++ b) := by
  induction first with
  | nil => cases h : Join.sources catalog second <;> simp [Join.sources, h]
  | cons j rest ih =>
    obtain ⟨kind, lateral, item, condition⟩ := j
    rw [cons_append, sources, sources, ih]
    cases FromItem.columns catalog item <;> cases sources catalog rest <;>
      cases sources catalog second <;> rfl

lemma Join.levels_append (joins : List Join) (xs ys : List Level) :
    levels ops ts env joins (xs ++ ys) = (levels ops ts env joins xs).bind fun a =>
        (levels ops ts env joins ys).bind fun b => some (a ++ b) := by
  induction joins generalizing xs ys with
  | nil => rfl
  | cons j rest ih =>
    obtain ⟨kind, lateral, item, condition⟩ := j
    simp only [levels, Option.bind_eq_bind]
    cases FromItem.columns ts.catalog item with
    | none => rfl
    | some columns =>
      exact mapM_flatten_append _ ih xs ys

lemma Join.levels_nil (h : Join.sources ts.catalog joins = some sources) :
    levels ops ts env joins [] = some [] := by
  induction joins generalizing sources with
  | nil => rfl
  | cons j rest ih =>
    obtain ⟨kind, lateral, item, condition⟩ := j
    rw [Join.sources] at h
    cases hc : FromItem.columns ts.catalog item with
    | none => simp [hc] at h
    | some columns =>
      cases hr : Join.sources ts.catalog rest with
      | none => simp [hc, hr] at h
      | some others =>
        rw [Join.levels, hc]
        exact ih hr

/-- Joins that give one row for each row give the rows one by one. -/
lemma Join.levels_map {is : List ι} {start full : ι → Level}
    (hs : Join.sources ts.catalog joins = some sources)
    (h : ∀ i ∈ is, levels ops ts env joins [start i] = some [full i]) :
    levels ops ts env joins (is.map start) = some (is.map full) := by
  induction is with
  | nil => exact levels_nil hs
  | cons i rest ih =>
    rw [map_cons, ← singleton_append, levels_append, h i (by simp),
      ih fun k hk => h k (by simp [hk])]
    rfl

/-- A lateral join on no condition adds what its SELECT gives beside the row. -/
lemma Join.levels_leftLateral {inner : Select} {columns : List String} {rows : List Row}
    (hc : inner.columns ts.catalog = some columns)
    (hr : inner.rows ops ts (level :: env) = some rows) (label : String) :
    levels ops ts env [.leftLateral (.select inner) label] [level] =
      some (joinedLevels .left label columns level rows) := by
  have hitem : FromItem.columns ts.catalog (.derived (.select inner) label []) = some columns := by
    rw [FromItem.columns, Statement.columns, hc]
    simp
  have hrows : FromItem.rows ops ts (level :: env) (.derived (.select inner) label []) =
      some rows := by
    rw [FromItem.rows, Statement.rows, hr]
    simp [Row.renamed_nil]
  have hall : filterOption (fun row => Expr.holds ops ts
      ((level ++ [⟨FromItem.qualifier (.derived (.select inner) label []), row, true⟩]) :: env)
      (some (.bool true))) rows = some rows := by
    have htrue : ∀ env, Expr.holds ops ts env (some (.bool true)) = some true := fun _ => rfl
    rw [filterOption_eq fun _ _ => htrue _, filter_true]
  rw [leftLateral, levels, hitem]
  simp only [mapM_cons, mapM_nil, Option.bind_eq_bind, Option.bind_some, if_true, hrows,
    hall, Option.pure_def, flatten_cons, flatten_nil, append_nil, levels]
  rfl

/-! ### SELECTs -/

section Selects

/-- The cells that a SELECT list gives of bound rows; an empty one gives all. -/
def projected (ops : Operators) (ts : Tables) (env : Env) (projection : List SelectItem)
    (level : Level) : Option Row :=
  if projection.isEmpty then some (level.flatMap (·.row))
  else SelectItem.cells ops ts (level :: env) none projection

/-- **The rows of a SELECT** without aggregates: what its FROM item and its joins bind, as far as
the condition keeps it, in order and cut to a page. -/
lemma Select.rows_bound {ι : Type} {projection : List SelectItem} {source : Option FromItem}
    {condition : Option Expr} {ordering : List OrderItem} {limit offset : Option UInt64}
    {base : List Level} {is : List ι} {cells : ι → Row} {full : ι → Level} {keep : ι → Bool}
    {keys : ι → List (Value × Bool)} (hnames : (boundNames source joins).Nodup)
    (hagg : projection.any (·.expr.aggregates) = false)
    (hbase : FromItem.levels ops ts env source = some base)
    (hbound : levels ops ts env joins base = some (is.map full))
    (hcond : ∀ i ∈ is, Expr.holds ops ts (full i :: env) condition = some (keep i))
    (hkeys : ∀ i ∈ is, OrderItem.keys ops ts (full i :: env) ordering = some (keys i))
    (hcells : ∀ i ∈ is, projected ops ts env projection (full i) = some (cells i)) :
    Select.rows ops ts env ⟨projection, source, joins, condition, ordering, limit, offset⟩ =
      some ((pageOf limit offset
        (ops.sorted ((is.filter keep).map fun i => (keys i, i)))).map cells) := by
  have hkept : filterOption (fun level => Expr.holds ops ts (level :: env) condition)
      (is.map full) = some ((is.filter keep).map full) := filterOption_map_some hcond
  have hmem : ∀ i ∈ is.filter keep, i ∈ is := fun i hi => (mem_filter.mp hi).1
  generalize is.filter keep = kept at hkept hmem
  have hkeyed : (kept.map full).mapM (fun level =>
      (OrderItem.keys ops ts (level :: env) ordering).bind fun keys => pure (keys, level)) =
      some (kept.map fun i => (keys i, full i)) := by
    rw [mapM_map]
    refine mapM_eq_some_map fun i hi => ?_
    simp_all
  have hout : ((pageOf limit offset (ops.sorted (kept.map fun i => (keys i, i)))).map full).mapM
      (projected ops ts env projection) = some ((pageOf limit offset
        (ops.sorted (kept.map fun i => (keys i, i)))).map cells) := by
    rw [mapM_map]
    refine mapM_eq_some_map fun i hi => hcells i (hmem i ?_)
    exact Operators.mem_sorted ((pageOf_sublist _ _ _).mem hi)
  rw [← pageOf_map, ← Operators.sorted_map] at hout
  rw [Select.rows]
  simp only [hnames, not_true_eq_false, if_false, Option.bind_eq_bind, hbase, Option.bind_some,
    hbound, hkept, hagg, Bool.false_eq_true, hkeyed]
  exact hout

section OneRowEach

variable {ι : Type} {projection : List SelectItem} {item : FromItem} {condition : Option Expr}
  {is : List ι} {row cells : ι → Row} {full : ι → Level} {keep : ι → Bool}
  (hnames : (boundNames (some item) joins).Nodup)
  (hagg : projection.any (·.expr.aggregates) = false)
  (hrows : item.rows ops ts env = some (is.map row))
  (hs : Join.sources ts.catalog joins = some sources)
  (hjoin : ∀ i ∈ is, levels ops ts env joins [[⟨item.qualifier, row i, true⟩]] = some [full i])
  (hcond : ∀ i ∈ is, Expr.holds ops ts (full i :: env) condition = some (keep i))

include hnames hagg hrows hs hjoin hcond

/-- The rows of a SELECT without aggregates whose joins give one row for each row. -/
lemma Select.rows_paged {ordering : List OrderItem} {limit offset : Option UInt64}
    {keys : ι → List (Value × Bool)}
    (hkeys : ∀ i ∈ is, OrderItem.keys ops ts (full i :: env) ordering = some (keys i))
    (hcells : ∀ i ∈ is, projected ops ts env projection (full i) = some (cells i)) :
    Select.rows ops ts env ⟨projection, some item, joins, condition, ordering, limit, offset⟩ =
      some ((pageOf limit offset
        (ops.sorted ((is.filter keep).map fun i => (keys i, i)))).map cells) := by
  have hbase : FromItem.levels ops ts env (some item) =
      some (is.map fun i => [⟨item.qualifier, row i, true⟩]) := by
    rw [FromItem.levels, hrows]
    simp
  exact Select.rows_bound hnames hagg hbase (levels_map hs hjoin) hcond hkeys hcells

lemma Select.rows_plain
    (hcells : ∀ i ∈ is, projected ops ts env projection (full i) = some (cells i)) :
    Select.rows ops ts env ⟨projection, some item, joins, condition, [], none, none⟩ =
      some ((is.filter keep).map cells) := by
  rw [Select.rows_paged hnames hagg hrows hs hjoin hcond (fun _ _ => rfl) hcells,
    Operators.sorted_unordered, pageOf_none]

end OneRowEach

lemma SelectItem.cells_append (group : Option (List Env)) (first second : List SelectItem) :
    SelectItem.cells ops ts env group (first ++ second) =
      (SelectItem.cells ops ts env group first).bind fun a =>
        (SelectItem.cells ops ts env group second).bind fun b => some (a ++ b) := by
  induction first with
  | nil => cases h : SelectItem.cells ops ts env group second <;> simp [SelectItem.cells, h]
  | cons item rest ih =>
    rw [cons_append, SelectItem.cells, SelectItem.cells, ih]
    cases SelectItem.itemCells ops ts env group item <;>
      cases SelectItem.cells ops ts env group rest <;>
      cases SelectItem.cells ops ts env group second <;> simp

end Selects

/-! ### Made up names as rows -/

/-- No column of the rows has a made up name. -/
def Level.Plain (level : Level) : Prop :=
  ∀ b ∈ level, ∀ e ∈ b.row, isGeneratedName e.1 = false

/-- No column that can be seen has a made up name. -/
def Env.Plain (env : Env) : Prop := ∀ level ∈ env, level.Plain

lemma Level.Plain.append {a b : Level} (ha : a.Plain) (hb : b.Plain) : Level.Plain (a ++ b) := by
  intro x hx
  rcases mem_append.mp hx with h | h
  · exact ha x h
  · exact hb x h

lemma Env.Plain.cons (hl : level.Plain) (he : env.Plain) : Env.Plain (level :: env) := by
  intro l h
  rcases mem_cons.mp h with rfl | h
  · exact hl
  · exact he l h

lemma Env.Plain.named_eq_nil (h : env.Plain)
    (hg : isGeneratedName name = true) : env.named name = [] := by
  induction env with
  | nil => rfl
  | cons level outer ih =>
    have hlevel : level.named name = [] := by
      rw [Level.named, flatMap_eq_nil_iff]
      intro b hb
      rw [map_eq_nil_iff, filter_eq_nil_iff]
      rintro e he heq
      rw [beq_iff_eq] at heq
      have := h level (by simp) b hb e he
      rw [heq, hg] at this
      exact absurd this (by decide)
    rw [Env.named, hlevel]
    exact ih fun l hl => h l (by simp [hl])

/-- **A made up name means the row that is bound to it.** -/
lemma Env.Plain.rowToJson (h : env.Plain) {b : Binding} (hg : isGeneratedName name = true)
    (hb : env.binding? name = some b) : env.rowToJson [.column none name] = some b.toJson := by
  rw [Env.rowToJson, h.named_eq_nil hg, hb]
  rfl

lemma Expr.eval_rowToJson {group : Option (List Env)} (label : String) :
    (Expr.rowToJson label).eval ops ts env group = env.rowToJson [.column none label] := by
  rfl

/-! ### Orders -/

/-- **The database orders values**: of two values only one may come before the other, and then a
third value comes after the first or before the second of them. -/
structure Operators.Orders (ops : Operators) : Prop where
  asymm : ∀ a b, ops.less a b = true → ops.less b a = false
  split : ∀ a b c, ops.less a c = true → ops.less a b = true ∨ ops.less b c = true

/-- The values of columns of a row, with the directions in which they are ordered. -/
def SortKey.keys (ordering : List SortKey) (row : Row) : List (Value × Bool) :=
  ordering.map fun key => ((row.cell? key.column).getD .null, key.descending)

namespace Operators

variable {ops : Operators} {key : SortKey} {a b : Row}

/-- Whether a row may stand before another one. -/
def rowLe (ops : Operators) (ordering : List SortKey) (a b : Row) : Bool :=
  ops.keysLe (SortKey.keys ordering a) (SortKey.keys ordering b)

/-- Whether a row comes before another one by the value of a column. -/
def keyBefore (ops : Operators) (key : SortKey) (a b : Row) : Bool :=
  let x := (a.cell? key.column).getD .null
  let y := (b.cell? key.column).getD .null
  ops.before (if key.descending then y else x) (if key.descending then x else y)

/-- Rows are compared by the first column, and by the others if that does not decide. -/
lemma rowLe_cons {rest : List SortKey} :
    ops.rowLe (key :: rest) a b = true ↔ ops.keyBefore key a b = true ∨
      ops.keyBefore key b a = false ∧ ops.rowLe rest a b = true := by
  change (if ops.keyBefore key a b then true
    else if ops.keyBefore key b a then false else ops.rowLe rest a b) = true ↔ _
  simp

lemma Orders.before_asymm (h : ops.Orders) {a b : Value} (hab : ops.before a b = true) :
    ops.before b a = false := by
  rw [before] at hab ⊢
  cases ha : a.isNull <;> cases hb : b.isNull <;> simp_all [h.asymm a b]

lemma Orders.before_split (h : ops.Orders) {a c : Value} (hac : ops.before a c = true) (b : Value) :
    ops.before a b = true ∨ ops.before b c = true := by
  rw [before] at hac ⊢
  rw [before]
  cases ha : a.isNull <;> cases hb : b.isNull <;> cases hc : c.isNull <;> simp_all [h.split a b c]

lemma Orders.keyBefore_asymm (h : ops.Orders)
    (hab : ops.keyBefore key a b = true) : ops.keyBefore key b a = false := by
  obtain ⟨column, descending⟩ := key
  cases descending <;> exact h.before_asymm hab

lemma Orders.keyBefore_split (h : ops.Orders) {c : Row} (hac : ops.keyBefore key a c = true)
    (b : Row) : ops.keyBefore key a b = true ∨ ops.keyBefore key b c = true := by
  obtain ⟨column, descending⟩ := key
  cases descending
  · exact h.before_split hac _
  · exact (h.before_split hac _).symm

lemma rowLe_total (ops : Operators) (ordering : List SortKey) (a b : Row) :
    (ops.rowLe ordering a b || ops.rowLe ordering b a) = true := by
  induction ordering with
  | nil => rfl
  | cons key rest ih =>
    rw [Bool.or_eq_true] at ih ⊢
    rw [rowLe_cons, rowLe_cons]
    grind

/-- By induction on the ordering: where the first column does not decide, the others do. -/
lemma Orders.rowLe_trans (h : ops.Orders) (ordering : List SortKey) (a b c : Row) :
    ops.rowLe ordering a b = true → ops.rowLe ordering b c = true →
      ops.rowLe ordering a c = true := by
  induction ordering with
  | nil => exact fun _ _ => rfl
  | cons key rest ih =>
    rw [rowLe_cons, rowLe_cons, rowLe_cons]
    rintro (hab | ⟨hba, hab⟩) (hbc | ⟨hcb, hbc⟩)
    · have hcb := h.keyBefore_asymm hbc
      exact .inl ((h.keyBefore_split hab c).resolve_right (by simp [hcb]))
    · exact .inl ((h.keyBefore_split hab c).resolve_right (by simp [hcb]))
    · exact .inl ((h.keyBefore_split hbc a).resolve_left (by simp [hba]))
    · refine .inr ⟨?_, ih hab hbc⟩
      by_contra hca
      have hca : ops.keyBefore key c a = true := by simpa using hca
      rcases h.keyBefore_split hca b with hcb' | hba'
      · simp [hcb] at hcb'
      · simp [hba] at hba'

/-! ### Sorting -/

/-- **Rows in an order.** Rows with equal keys keep their order. -/
def arranged (ops : Operators) (ordering : List SortKey) (rows : List Row) : List Row :=
  ops.sorted (rows.map fun row => (SortKey.keys ordering row, row))

lemma arranged_eq (ordering : List SortKey) (rows : List Row) :
    ops.arranged ordering rows = rows.mergeSort (ops.rowLe ordering) := by
  have hsort : (rows.mergeSort (ops.rowLe ordering)).map
      (fun row => (SortKey.keys ordering row, row)) =
        (rows.map fun row => (SortKey.keys ordering row, row)).mergeSort
          fun a b => ops.keysLe a.1 b.1 := List.map_mergeSort fun _ _ _ _ => rfl
  rw [arranged, sorted, ← hsort, List.map_map]
  exact List.map_id _

lemma arranged_nil (rows : List Row) : ops.arranged [] rows = rows := by
  rw [arranged_eq]
  exact List.mergeSort_of_pairwise (List.pairwise_of_forall fun _ _ => rfl)

lemma arranged_perm (ordering : List SortKey) (rows : List Row) :
    (ops.arranged ordering rows).Perm rows := by
  rw [arranged_eq]
  exact List.mergeSort_perm _ _

/-- **Rows that were arranged are in order.** -/
lemma Orders.arranged_pairwise (h : ops.Orders) (ordering : List SortKey) (rows : List Row) :
    (ops.arranged ordering rows).Pairwise fun a b => ops.rowLe ordering a b = true := by
  rw [arranged_eq]
  exact List.pairwise_mergeSort (h.rowLe_trans ordering) (ops.rowLe_total ordering) rows

end Operators

end StagedSql
