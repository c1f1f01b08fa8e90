import Mathlib.Data.Fintype.Card
import Mathlib.Data.List.NodupEquivFin
import Mathlib.Logic.Relation
import StagedSql.Proofs.Sql.Rows

/-!
Recursive tables, and trails of linked rows.

A recursive table begins with the rows of one SELECT. As long as the last round gave rows, a second
SELECT sees these rows as the table and gives those of the next round. A recursion that goes on from
every trail that it has found finds every trail once, round by round (`exists_rounds`).
-/

namespace StagedSql

open List

/-- **The rounds of a recursion**: the rows of a round and of all that follow. -/
inductive Rounds {α : Type} (next : List α → Option (List α)) : List α → List α → Prop
  | done : Rounds next [] []
  | more {last later rows : List α} (hne : last ≠ []) (hnext : next last = some later)
      (h : Rounds next later rows) : Rounds next last (last ++ rows)

lemma Rounds.unique {α : Type} {next : List α → Option (List α)} {first rows rows' : List α}
    (h : Rounds next first rows) (h' : Rounds next first rows') : rows = rows' := by
  induction h generalizing rows' with
  | done =>
    cases h' with
    | done => rfl
    | more hne => exact absurd rfl hne
  | more hne hnext _ ih =>
    cases h' with
    | done => exact absurd rfl hne
    | more _ hnext' h' =>
      grind

/-- **The table of a recursion**, WITH RECURSIVE `name` AS (`start` UNION ALL `step`). Its columns
are those of the first SELECT, and the second one has as many. -/
structure RecursiveTable (ops : Operators) (ts : Tables) (env : Env) (name : String)
    (start step : Select) (t : Table) : Prop where
  columns : start.columns ts.catalog = some t.columns
  arity : (step.columns (ts.define name ⟨t.columns, []⟩).catalog).map List.length =
    some t.columns.length
  rows : ∃ first, start.rows ops ts env = some first ∧
    Rounds (fun last => (step.rows ops (ts.define name ⟨t.columns, last⟩) env).map
      (·.map (Row.renamed t.columns))) first t.rows

lemma RecursiveTable.unique {ops : Operators} {ts : Tables} {env : Env} {name : String}
    {start step : Select} {t t' : Table} (h : RecursiveTable ops ts env name start step t)
    (h' : RecursiveTable ops ts env name start step t') : t' = t := by
  obtain ⟨columns, rows⟩ := t
  obtain ⟨columns', rows'⟩ := t'
  obtain rfl : columns = columns' := Option.some.inj (h.columns.symm.trans h'.columns)
  obtain ⟨first, hf, hr⟩ := h.rows
  obtain ⟨first', hf', hr'⟩ := h'.rows
  obtain rfl : first = first' := Option.some.inj (hf.symm.trans hf')
  rw [show rows' = rows from hr'.unique hr]

section Joins

variable {ops : Operators} {ts : Tables} {env : Env} {ι : Type} {joins : List Join}
  {projection : List SelectItem} {found : List Row}

/-- An inner join with a table binds each row together with every row that meets the condition. -/
lemma Join.levels_inner {κ : Type} {is : List ι} {ks : List κ} {level : ι → Level} {row : κ → Row}
    {name : String} {condition : Expr} {columns : List String} {on : ι → κ → Bool}
    (ht : ts name = some ⟨columns, ks.map row⟩)
    (hon : ∀ i ∈ is, ∀ k ∈ ks, Expr.holds ops ts ((level i ++ [⟨name, row k, true⟩]) :: env)
      (some condition) = some (on i k)) :
    Join.levels ops ts env [⟨.inner, false, .table name none, some condition⟩] (is.map level) =
      some ((is.flatMap fun i => (ks.filter (on i)).map (Prod.mk i)).map
        fun x => level x.1 ++ [⟨name, row x.2, true⟩]) := by
  have hcolumns : FromItem.columns ts.catalog (.table name none) = some columns := by
    rw [FromItem.columns, Tables.catalog, ht]
    rfl
  have hrows : FromItem.rows ops ts env (.table name none) = some (ks.map row) := by
    rw [FromItem.rows, ht]
    rfl
  have hjoined : (is.map level).mapM (fun level =>
      (FromItem.rows ops ts env (.table name none)).bind fun rows =>
        (filterOption (fun row => Expr.holds ops ts ((level ++ [⟨name, row, true⟩]) :: env)
          (some condition)) rows).bind fun found =>
            pure (joinedLevels .inner name columns level found)) =
      some (is.map fun i => (ks.filter (on i)).map fun k => level i ++ [⟨name, row k, true⟩]) := by
    rw [mapM_map]
    refine mapM_eq_some_map fun i hi => ?_
    have hkept : filterOption (fun row => Expr.holds ops ts
        ((level i ++ [⟨name, row, true⟩]) :: env) (some condition)) (ks.map row) =
        some ((ks.filter (on i)).map row) := filterOption_map_some (hon i hi)
    dsimp only [Function.comp_apply]
    rw [hrows, Option.bind_some, hkept]
    cases ks.filter (on i) <;> simp [joinedLevels]
  rw [Join.levels, hcolumns]
  simp only [Option.bind_eq_bind, Option.bind_some, Bool.false_eq_true, if_false,
    FromItem.qualifier] at hjoined ⊢
  rw [hjoined, Option.bind_some, Join.levels, map_flatMap, flatMap_def]
  simp only [map_map, Function.comp_def]

lemma mem_of_mapM {α β : Type} {f : α → Option β} {l : List α} {out : List β}
    (h : l.mapM f = some out) : ∀ b ∈ out, ∃ a ∈ l, f a = some b := by
  induction l generalizing out with
  | nil =>
    cases h
    simp
  | cons a rest ih =>
    rw [mapM_cons] at h
    obtain ⟨b, hb, h⟩ := Option.bind_eq_some_iff.mp h
    obtain ⟨others, hothers, h⟩ := Option.bind_eq_some_iff.mp h
    grind

/-- Left joins leave out no row, and add one row each to the rows bound so far. -/
lemma Join.levels_left (hleft : ∀ j ∈ joins, j.kind = .left) {levels bound : List Level}
    (h : Join.levels ops ts env joins levels = some bound) :
    (levels ≠ [] → bound ≠ []) ∧ ∀ l ∈ bound, ∃ level ∈ levels, ∃ more : Level,
      l = level ++ more ∧ more.length = joins.length := by
  induction joins generalizing levels with
  | nil =>
    cases h
    simp
  | cons j rest ih =>
    obtain ⟨kind, lateral, item, condition⟩ := j
    obtain ⟨rfl, hrest⟩ := forall_mem_cons.mp hleft
    obtain ⟨columns, -, h⟩ := Option.bind_eq_some_iff.mp h
    obtain ⟨joined, hjoined, h⟩ := Option.bind_eq_some_iff.mp h
    obtain ⟨hne, hmore⟩ := ih hrest h
    -- what the first join makes of one row
    have hgroup : ∀ group ∈ joined, ∃ level ∈ levels, ∃ found : List Row,
        group = joinedLevels .left item.qualifier columns level found := by
      intro group hgroup
      obtain ⟨level, hlevel, hf⟩ := mem_of_mapM hjoined group hgroup
      obtain ⟨rows, -, hf⟩ := Option.bind_eq_some_iff.mp hf
      obtain ⟨found, -, hf⟩ := Option.bind_eq_some_iff.mp hf
      cases hf
      exact ⟨level, hlevel, found, rfl⟩
    refine ⟨fun hlevels => hne ?_, fun l hl => ?_⟩
    · cases joined with
      | nil => cases levels <;> simp_all [Option.bind_eq_some_iff]
      | cons group groups =>
        obtain ⟨level, -, found, rfl⟩ := hgroup group mem_cons_self
        cases found <;> simp [joinedLevels]
    · obtain ⟨mid, hmid, more, rfl, hlength⟩ := hmore l hl
      obtain ⟨group, hmem, hmid⟩ := mem_flatten.mp hmid
      obtain ⟨level, hlevel, found, rfl⟩ := hgroup group hmem
      obtain ⟨b, rfl⟩ : ∃ b : Binding, mid = level ++ [b] := by
        cases found with
        | nil => exact ⟨_, mem_singleton.mp hmid⟩
        | cons row others =>
          obtain ⟨row', -, rfl⟩ := mem_map.mp hmid
          exact ⟨_, rfl⟩
      exact ⟨level, hlevel, b :: more, by simp, by simp [hlength]⟩

lemma Select.rows_joined {source : Option FromItem} {base : List Level}
    (hagg : projection.any (·.expr.aggregates) = false)
    (hbase : FromItem.levels ops ts env source = some base)
    (h : Select.rows ops ts env ⟨projection, source, joins, none, [], none, none⟩ = some found) :
    ∃ bound, Join.levels ops ts env joins base = some bound ∧
      bound.mapM (projected ops ts env projection) = some found := by
  by_cases hnames : (boundNames source joins).Nodup
  · cases hbound : Join.levels ops ts env joins base with
    | none =>
      rw [Select.rows] at h
      simp [hnames, hbase, hbound] at h
    | some bound =>
      refine ⟨bound, rfl, ?_⟩
      have hkept : filterOption (fun level => Expr.holds ops ts (level :: env) none) bound =
          some bound := by
        rw [filterOption_eq fun _ _ => show Expr.holds ops ts _ none = some true from rfl,
          filter_true]
      have hkeyed : bound.mapM (fun level =>
          (OrderItem.keys ops ts (level :: env) []).bind fun keys => pure (keys, level)) =
          some (bound.map fun level => ([], level)) := mapM_eq_some_map fun _ _ => rfl
      rw [Select.rows] at h
      simp only [hnames, not_true_eq_false, if_false, Option.bind_eq_bind, hbase,
        Option.bind_some, hbound, hkept, hagg, Bool.false_eq_true, hkeyed,
        Operators.sorted_unordered, pageOf_none] at h
      exact h
  · rw [Select.rows] at h
    simp [hnames] at h

/-- **What left joins make of each row.** If a SELECT without a condition gives rows, then each row
that it reads gives some of them. -/
lemma Select.rows_grouped {item : FromItem} {is : List ι} {row : ι → Row}
    (hagg : projection.any (·.expr.aggregates) = false)
    (hrows : item.rows ops ts env = some (is.map row)) (hleft : ∀ j ∈ joins, j.kind = .left)
    (h : Select.rows ops ts env ⟨projection, some item, joins, none, [], none, none⟩ = some found) :
    ∃ shown : ι → List Row, found = is.flatMap shown ∧ ∀ i ∈ is, shown i ≠ [] ∧
      ∀ out ∈ shown i, ∃ more : Level, more.length = joins.length ∧
        projected ops ts env projection (⟨item.qualifier, row i, true⟩ :: more) = some out := by
  have hbase : FromItem.levels ops ts env (some item) =
      some (is.map fun i => [⟨item.qualifier, row i, true⟩]) := by
    rw [FromItem.levels, hrows]
    simp
  obtain ⟨bound, hbound, hfound⟩ := Select.rows_joined hagg hbase h
  clear h hbase hrows
  -- each row is joined and projected on its own
  obtain ⟨shown, hshown⟩ : ∃ shown : ι → List Row, ∀ i, shown i =
      ((Join.levels ops ts env joins [[⟨item.qualifier, row i, true⟩]]).bind
        (·.mapM (projected ops ts env projection))).getD [] := ⟨_, fun _ => rfl⟩
  refine ⟨shown, ?_⟩
  induction is generalizing bound found with
  | nil =>
    have hnil : bound = [] := eq_nil_iff_forall_not_mem.mpr fun l hl => by
      obtain ⟨level, hlevel, -⟩ := (Join.levels_left hleft hbound).2 l hl
      cases hlevel
    subst hnil
    cases hfound
    simp
  | cons i rest ih =>
    rw [map_cons, ← singleton_append, Join.levels_append] at hbound
    obtain ⟨group, hgroup, hbound⟩ := Option.bind_eq_some_iff.mp hbound
    obtain ⟨others, hothers, hbound⟩ := Option.bind_eq_some_iff.mp hbound
    cases hbound
    rw [mapM_append] at hfound
    obtain ⟨outs, houts, hfound⟩ := Option.bind_eq_some_iff.mp hfound
    obtain ⟨later, hlater, hfound⟩ := Option.bind_eq_some_iff.mp hfound
    cases hfound
    obtain ⟨hrest, heach⟩ := ih others hothers hlater
    rw [flatMap_cons, ← hrest, forall_mem_cons, hshown i, hgroup, Option.bind_some, houts]
    obtain ⟨hne, hmore⟩ := Join.levels_left hleft hgroup
    refine ⟨rfl, ⟨?_, fun out hout => ?_⟩, heach⟩
    · rintro rfl
      cases group with
      | nil => exact hne (by simp) rfl
      | cons l ls => simp [mapM_cons, Option.bind_eq_some_iff] at houts
    · obtain ⟨l, hl, hp⟩ := mem_of_mapM houts out hout
      grind

end Joins

section Trails

variable {n : Nat} {first : Fin n → Bool} {link : Fin n → Fin n → Bool}

/-- **A trail**: a first place, and further places that are linked to those before them. -/
inductive Trail (first : Fin n → Bool) (link : Fin n → Fin n → Bool) : List (Fin n) → Prop
  | first {i : Fin n} (h : first i = true) : Trail first link [i]
  | next {i j : Fin n} {p : List (Fin n)} (h : Trail first link (i :: p)) (hl : link i j = true) :
      Trail first link (j :: i :: p)

/-- No row is linked to itself, directly or over others. -/
def Acyclic (link : Fin n → Fin n → Bool) : Prop :=
  ∀ i, ¬ Relation.TransGen (fun i j => link i j = true) i i

lemma Trail.ne_nil {p : List (Fin n)} (h : Trail first link p) : p ≠ [] := by
  cases h <;> simp

lemma Trail.linked {i : Fin n} {p : List (Fin n)} (h : Trail first link (i :: p)) :
    ∀ j ∈ p, Relation.TransGen (fun i j => link i j = true) j i := by
  generalize hq : i :: p = q at h
  induction h generalizing i p with
  | first _ =>
    cases hq
    simp
  | next h hl ih =>
    grind

/-- **No place is met twice.** -/
lemma Trail.nodup {p : List (Fin n)} (h : Trail first link p) (hacyclic : Acyclic link) :
    p.Nodup := by
  induction h with
  | first _ => exact nodup_singleton _
  | next h hl ih =>
    exact nodup_cons.mpr ⟨fun hmem => hacyclic _ ((h.next hl).linked _ hmem), ih⟩

lemma Trail.length_le {p : List (Fin n)} (h : Trail first link p) (hacyclic : Acyclic link) :
    p.length ≤ n := by
  simpa using (h.nodup hacyclic).length_le_card

/-- A trail is within a limit. The first place is, whatever the limit is. -/
def Trail.Within (limit : Option Nat) (p : List (Fin n)) : Prop := ∀ d ∈ limit, p.length ≤ max 1 d

/-- The places to which trails lead on, each with its trail. -/
def furtherPlaces (link : Fin n → Fin n → Bool) (last : List (List (Fin n))) :
    List (Fin n × List (Fin n)) :=
  (List.finRange n).flatMap fun j =>
    (last.filter fun p => p.head?.any (link · j)).map (Prod.mk j)

/-- The trails of the next round: those of the last one that are below the limit, with one more
place. -/
def nextTrails (link : Fin n → Fin n → Bool) (limit : Option Nat) (last : List (List (Fin n))) :
    List (List (Fin n)) :=
  ((furtherPlaces link last).filter fun x => limit.all (x.2.length < ·)).map fun x => x.1 :: x.2

variable {limit : Option Nat} {last : List (List (Fin n))} {k : Nat}

lemma mem_furtherPlaces {x : Fin n × List (Fin n)} :
    x ∈ furtherPlaces link last ↔ x.2 ∈ last ∧ ∃ i p, x.2 = i :: p ∧ link i x.1 = true := by
  obtain ⟨j, q⟩ := x
  simp only [furtherPlaces, mem_flatMap, mem_finRange, true_and, mem_map, mem_filter, Prod.mk.injEq]
  constructor
  · rintro ⟨_, p, ⟨hp, hl⟩, rfl, rfl⟩
    refine ⟨hp, ?_⟩
    cases p with
    | nil => simp at hl
    | cons i p => exact ⟨i, p, rfl, by simpa using hl⟩
  · simp_all

lemma nextTrails_nodup (h : last.Nodup) : (nextTrails link limit last).Nodup := by
  have hplaces : (furtherPlaces link last).Nodup := by
    refine nodup_flatMap.mpr ⟨fun j _ => (h.filter _).map (Prod.mk_right_injective j), ?_⟩
    refine (nodup_finRange n).imp fun {i j} hij => ?_
    intro q hi hj
    grind
  refine (hplaces.filter _).map fun x y h => ?_
  exact Prod.ext (List.cons.inj h).1 (List.cons.inj h).2

/-- After all trails of a length, those of the next length follow. -/
lemma mem_nextTrails
    (hlast : ∀ p, p ∈ last ↔ Trail first link p ∧ Trail.Within limit p ∧ p.length = k + 1)
    (q : List (Fin n)) :
    q ∈ nextTrails link limit last ↔
      Trail first link q ∧ Trail.Within limit q ∧ q.length = k + 1 + 1 := by
  simp only [nextTrails, mem_map, mem_filter, mem_furtherPlaces, hlast,
    Option.all_eq_true, decide_eq_true_eq]
  constructor
  · rintro ⟨⟨j, p⟩, ⟨⟨⟨ht, -, hk⟩, i, p, rfl, hl⟩, hd⟩, rfl⟩
    refine ⟨ht.next hl, fun d hdl => ?_, by simpa using hk⟩
    have := hd d hdl
    simp only [length_cons] at this ⊢
    omega
  · rintro ⟨ht, hw, hk⟩
    cases ht with
    | first h => simp at hk
    | @next i j p h hl =>
      have hlt : ∀ d ∈ limit, (i :: p).length < d := fun d hd => by
        have := hw d hd
        simp only [length_cons] at this ⊢
        omega
      refine ⟨(j, i :: p), ⟨⟨⟨h, fun d hd => ?_, by simpa using hk⟩, i, p, rfl, hl⟩, hlt⟩, rfl⟩
      exact (hlt d hd).le.trans (le_max_right _ _)

/-- **The rounds end, and give each trail once**, if the trails within the limit are bounded. The
induction is on how many rounds there can still be. -/
lemma exists_rounds {α : Type} (entry : List (Fin n) → α) (next : List α → Option (List α))
    {bound : Nat}
    (hbound : ∀ p, Trail first link p → Trail.Within limit p → p.length ≤ bound)
    (hnext : ∀ last : List (List (Fin n)), (∀ p ∈ last, Trail first link p ∧ Trail.Within limit p) →
        next (last.map entry) = some ((nextTrails link limit last).map entry))
    {last : List (List (Fin n))} {k : Nat} (hnodup : last.Nodup)
    (hlast : ∀ p, p ∈ last ↔ Trail first link p ∧ Trail.Within limit p ∧ p.length = k + 1) :
    ∃ trails : List (List (Fin n)), trails.Nodup ∧
      (∀ p, p ∈ trails ↔ Trail first link p ∧ Trail.Within limit p ∧ k + 1 ≤ p.length) ∧
      Rounds next (last.map entry) (trails.map entry) := by
  induction hm : bound - k generalizing last k with
  | zero =>
    have hnone : ∀ p, ¬ (Trail first link p ∧ Trail.Within limit p ∧ k + 1 ≤ p.length) := by
      grind
    obtain rfl : last = [] := eq_nil_iff_forall_not_mem.mpr fun p hp =>
      hnone p (((hlast p).mp hp).imp_right (And.imp_right fun h => h.ge))
    exact ⟨[], nodup_nil, fun p => by simpa using hnone p, .done⟩
  | succ m ih =>
    obtain ⟨later, hlater, hmem, hrounds⟩ :=
      ih (nextTrails_nodup hnodup) (mem_nextTrails hlast) (by omega)
    refine ⟨last ++ later, nodup_append.mpr ⟨hnodup, hlater, ?_⟩, fun p => ?_, ?_⟩
    · grind
    · grind
    · rw [map_append]
      cases last with
      | nil =>
        have hnil : nextTrails link limit [] = ([] : List (List (Fin n))) := by
          simp [nextTrails, furtherPlaces]
        rwa [hnil] at hrounds
      | cons p rest =>
        exact .more (by simp) (hnext _ fun p hp => ((hlast p).mp hp).imp_right And.left) hrounds

end Trails

end StagedSql
