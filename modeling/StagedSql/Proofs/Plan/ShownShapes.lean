import Mathlib.Data.Nat.Basic
import Mathlib.Order.Basic
import StagedSql.Plan.Scan
import StagedSql.Proofs.Selection.Objects
import StagedSql.Proofs.Sql.Rows

/-!
Shapes that show members of rows.

A shape shows given members of the rows of a relation if, wherever such a row is bound and whatever
is bound around it, its joins find exactly one row for it and its items then give the members.
-/

namespace StagedSql

open List

variable {s s' : PlanState} {scope : List String} {r : Relation} {ops : Operators} {ts : Tables}
  {qualifier name : String} {lo : Nat}

/-! ### Names -/

/-- No relation and no column has the form of a made up name. -/
def Schema.PlainNames (s : Schema) : Prop :=
  ∀ r ∈ s.relations, isGeneratedName r.name = false ∧
    ∀ c ∈ r.columns, isGeneratedName c.name = false

/-- **A database that fits its schema**: the links of the schema fit together, none of its names
could be made up, and primary keys are stored and unique. -/
structure Database.Fits (ops : Operators) (s : Schema) (db : Database) : Prop where
  linked : s.Linked
  plain : s.PlainNames
  stored : s.StoredKeys
  keyed : db.Keyed ops s

/-- The state has made up more names and is otherwise the same. -/
structure PlanState.NamesGrow (s s' : PlanState) : Prop where
  rest : s' = { s with names := s'.names }
  relations : s.names.relations ≤ s'.names.relations
  laterals : s.names.laterals ≤ s'.names.laterals

lemma PlanState.NamesGrow.refl (s : PlanState) : s.NamesGrow s := ⟨rfl, le_rfl, le_rfl⟩

lemma PlanState.NamesGrow.trans {s'' : PlanState} (h : s.NamesGrow s')
    (h' : s'.NamesGrow s'') : s.NamesGrow s'' := by
  refine ⟨?_, h.relations.trans h'.relations, h.laterals.trans h'.laterals⟩
  rw [h'.rest, h.rest]

/-- The names of a scope are no made up ones, or they are names that were made up for
relations. -/
def KnownScope (s : PlanState) (scope : List String) : Prop :=
  ∀ q ∈ scope, isGeneratedName q = false ∨ ∃ n ≤ s.names.relations, q = numberedName 'r' n

lemma KnownScope.mono (h : KnownScope s scope) (hn : s.NamesGrow s') : KnownScope s' scope := by
  intro q hq
  rcases h q hq with hg | ⟨n, hle, rfl⟩
  · exact .inl hg
  · exact .inr ⟨n, hle.trans hn.relations, rfl⟩

lemma KnownScope.ne_lateral (h : KnownScope s scope) {q : String} (hq : q ∈ scope)
    (k : Nat) : q ≠ numberedName 'j' k := by
  rcases h q hq with hg | ⟨n, -, rfl⟩
  · exact ne_numberedName hg (by decide)
  · intro he
    exact absurd (numberedName_inj.mp he).1 (by decide)

lemma qualify_run (hname : isGeneratedName name = false) (hk : KnownScope s scope) :
    ∃ q s', Plan.qualify name scope s = .ok (q, s') ∧ s.NamesGrow s' ∧
      s'.names.laterals = s.names.laterals ∧ q ∉ scope ∧ KnownScope s' (scope ++ [q]) := by
  by_cases hc : name ∈ scope
  · refine ⟨_, _, Plan.qualify_mem hc s, ⟨rfl, Nat.le_succ _, le_rfl⟩, rfl, ?_, ?_⟩
    · intro hmem
      rcases hk _ hmem with hg | ⟨n, hle, he⟩
      · exact ne_numberedName hg (by decide) rfl
      · have := (numberedName_inj.mp he).2
        omega
    · intro q hq
      rcases mem_append.mp hq with hq | hq
      · rcases hk q hq with hg | ⟨n, hle, rfl⟩
        · exact .inl hg
        · exact .inr ⟨n, hle.trans (Nat.le_succ _), rfl⟩
      · grind
  · refine ⟨_, _, Plan.qualify_not_mem hc s, .refl s, rfl, hc, ?_⟩
    intro q hq
    rcases mem_append.mp hq with hq | hq
    · exact hk q hq
    · rw [mem_singleton.mp hq]
      exact .inl hname

/-! ### Rows of relations -/

lemma Relation.storedNames_nodup (h : (r.columns.map (·.name)).Nodup) : r.storedNames.Nodup :=
  h.sublist (filter_sublist.map _)

lemma Relation.row_cell? (h : r.storedNames.Nodup) (hn : name ∈ r.storedNames)
    (values : String → Value) : (r.row values).cell? name = some (values name) := by
  have hone : r.storedNames.filter (· == name) = [name] := by
    rw [filter_beq, count_eq_one_of_mem h hn]
    rfl
  have hrow : (r.row values).filter (·.1 == name) = [(name, values name)] := by
    rw [Relation.row, filter_map]
    change (r.storedNames.filter (· == name)).map _ = _
    rw [hone]
    rfl
  rw [Row.cell?, hrow]

lemma Relation.row_plain {s : Schema} (h : s.PlainNames) (hr : r ∈ s.relations)
    (values : String → Value) : ∀ e ∈ r.row values, isGeneratedName e.1 = false := by
  intro e he
  obtain ⟨c, hc, rfl⟩ := mem_map.mp he
  obtain ⟨col, hcol, rfl⟩ := mem_map.mp hc
  exact (h r hr).2 col (mem_filter.mp hcol).1

/-! ### Shapes that show members -/

/-- The rows are bound to names of lateral joins with numbers above `lo` and up to `hi`. -/
def Level.Between (level : Level) (lo hi : Nat) : Prop :=
  ∀ b ∈ level, ∃ k, lo < k ∧ k ≤ hi ∧ b.label = numberedName 'j' k

/-- The rows are bound to names of lateral joins with numbers above `hi`. -/
def Level.Above (level : Level) (hi : Nat) : Prop :=
  ∀ b ∈ level, ∃ k, hi < k ∧ b.label = numberedName 'j' k

/-- A row of a relation is bound to a name, next to rows of lateral joins up to `lo`. -/
structure Level.Holds (level : Level) (r : Relation) (qualifier : String) (lo : Nat)
    (values : String → Value) : Prop where
  found : level.find? (·.label == qualifier) = some ⟨qualifier, r.row values, true⟩
  labels : ∀ b ∈ level, b.label = qualifier ∨ ∃ k ≤ lo, b.label = numberedName 'j' k

/-- **A shape shows members of the rows of a relation** that are bound to a name: its joins, which
are numbered from `lo` to `hi`, add one row to each row, and with these its items give the members,
also when further lateral joins come behind. -/
structure Shape.Shows (ops : Operators) (ts : Tables) (r : Relation) (qualifier : String)
    (sh : Shape) (lo hi : Nat) (members : (String → Value) → List (String × Json)) : Prop where
  le : lo ≤ hi
  labels : ∀ j ∈ sh.joins, ∃ k, lo < k ∧ k ≤ hi ∧ j.item.qualifier = numberedName 'j' k
  nodup : (sh.joins.map (·.item.qualifier)).Nodup
  sources : ∃ sources, Join.sources ts.catalog sh.joins = some sources
  items : ∀ item ∈ sh.items, item.isStar = false ∧ item.expr.aggregates = false ∧
    isGeneratedName item.givenName = false
  few : sh.items = [] → sh.joins = []
  names : ∀ values, (members values).map (·.1) = sh.items.map (·.givenName)
  cells : ∀ values (level : Level) (env : Env), level.Holds r qualifier lo values →
    Env.Plain (level :: env) → ∃ found : Level,
      Join.levels ops ts env sh.joins [level] = some [level ++ found] ∧
        found.Between lo hi ∧ found.Plain ∧
        ∀ later : Level, later.Above hi → later.Plain → ∃ row,
          SelectItem.cells ops ts ((level ++ found ++ later) :: env) none sh.items = some row ∧
            row.map (fun e => (e.1, e.2.toJson)) = members values

section Shows

variable {mid : Nat}

lemma Level.Holds.append {level found : Level} {values : String → Value}
    (h : level.Holds r qualifier lo values) (hle : lo ≤ mid) (hf : found.Between lo mid) :
    Level.Holds (level ++ found) r qualifier mid values := by
  refine ⟨by rw [find?_append, h.found]; rfl, ?_⟩
  intro b hb
  rcases mem_append.mp hb with hb | hb
  · rcases h.labels b hb with hq | ⟨k, hk, hl⟩
    · exact .inl hq
    · exact .inr ⟨k, hk.trans hle, hl⟩
  · obtain ⟨k, -, hk, hl⟩ := hf b hb
    exact .inr ⟨k, hk, hl⟩

lemma Shape.Shows.empty (n : Nat) :
    Shape.empty.Shows ops ts r qualifier n n fun _ => [] where
  le := le_rfl
  labels := by simp [Shape.empty]
  nodup := nodup_nil
  sources := ⟨[], rfl⟩
  items := by simp [Shape.empty]
  few := fun _ => rfl
  names := fun _ => rfl
  cells := by
    intro values level env _ _
    refine ⟨[], ?_, by simp [Level.Between], by simp [Level.Plain], ?_⟩
    · rw [append_nil]
      rfl
    · exact fun later _ _ => ⟨[], rfl, rfl⟩

/-- **Shapes one after the other** show their members one after the other. -/
lemma Shape.Shows.append {a b : Shape} {hi : Nat} {m m' : (String → Value) → List (String × Json)}
    (ha : a.Shows ops ts r qualifier lo mid m) (hb : b.Shows ops ts r qualifier mid hi m') :
    (a.append b).Shows ops ts r qualifier lo hi fun values => m values ++ m' values where
  le := ha.le.trans hb.le
  labels := by
    intro j hj
    rcases mem_append.mp hj with hj | hj
    · obtain ⟨k, hlo, hk, hl⟩ := ha.labels j hj
      exact ⟨k, hlo, hk.trans hb.le, hl⟩
    · obtain ⟨k, hlo, hk, hl⟩ := hb.labels j hj
      exact ⟨k, lt_of_le_of_lt ha.le hlo, hk, hl⟩
  nodup := by
    rw [Shape.append, map_append]
    refine List.Nodup.append ha.nodup hb.nodup ?_
    -- the numbers of the first shape end where those of the second begin
    intro label h1 h2
    obtain ⟨j1, hj1, rfl⟩ := mem_map.mp h1
    obtain ⟨j2, hj2, he⟩ := mem_map.mp h2
    obtain ⟨k1, -, hk1, hl1⟩ := ha.labels j1 hj1
    obtain ⟨k2, hk2, -, hl2⟩ := hb.labels j2 hj2
    rw [hl1, hl2] at he
    have := (numberedName_inj.mp he).2
    omega
  sources := by
    obtain ⟨s1, h1⟩ := ha.sources
    obtain ⟨s2, h2⟩ := hb.sources
    refine ⟨s1 ++ s2, ?_⟩
    rw [Shape.append, Join.sources_append, h1, h2]
    rfl
  items := by
    intro item hi
    rcases mem_append.mp hi with hi | hi
    · exact ha.items item hi
    · exact hb.items item hi
  few := by
    intro h
    obtain ⟨h1, h2⟩ := append_eq_nil_iff.mp h
    rw [Shape.append, ha.few h1, hb.few h2]
    rfl
  names := by
    intro values
    rw [map_append, ha.names, hb.names, Shape.append, map_append]
  cells := by
    intro values level env hl hp
    obtain ⟨f1, hj1, hbt1, hp1, hc1⟩ := ha.cells values level env hl hp
    have hplain : Env.Plain ((level ++ f1) :: env) :=
      Env.Plain.cons ((hp level (by simp)).append hp1) fun l h => hp l (by simp [h])
    obtain ⟨f2, hj2, hbt2, hp2, hc2⟩ :=
      hb.cells values (level ++ f1) env (hl.append ha.le hbt1) hplain
    refine ⟨f1 ++ f2, ?_, ?_, hp1.append hp2, ?_⟩
    · rw [Shape.append, Join.levels_append_joins, hj1, Option.bind_some, hj2, append_assoc]
    · intro x hx
      rcases mem_append.mp hx with hx | hx
      · obtain ⟨k, hlo, hk, he⟩ := hbt1 x hx
        exact ⟨k, hlo, hk.trans hb.le, he⟩
      · obtain ⟨k, hlo, hk, he⟩ := hbt2 x hx
        exact ⟨k, lt_of_le_of_lt ha.le hlo, hk, he⟩
    · intro later habove hlp
      -- to the items of the first shape, the rows of the second are further joins
      have hmore : Level.Above (f2 ++ later) mid := by
        intro x hx
        rcases mem_append.mp hx with hx | hx
        · obtain ⟨k, hk, -, he⟩ := hbt2 x hx
          exact ⟨k, hk, he⟩
        · obtain ⟨k, hk, he⟩ := habove x hx
          exact ⟨k, lt_of_le_of_lt hb.le hk, he⟩
      obtain ⟨row1, hr1, hm1⟩ := hc1 (f2 ++ later) hmore (hp2.append hlp)
      obtain ⟨row2, hr2, hm2⟩ := hc2 later habove hlp
      refine ⟨row1 ++ row2, ?_, by rw [map_append, hm1, hm2]⟩
      rw [Shape.append, SelectItem.cells_append]
      simp_all

end Shows

/-! ### A join and its item -/

lemma SelectItem.itemCells_labelled {env : Env} (group : Option (List Env)) (e : Expr)
    (name : String) :
    SelectItem.itemCells ops ts env group (labelled e name) =
      (e.eval ops ts env group).bind fun v => some [(name, v)] := by
  cases e <;> rfl

lemma Level.Holds.binding?_next {level later : Level} {values : String → Value}
    (h : level.Holds r qualifier lo values) (hq : ∀ k, qualifier ≠ numberedName 'j' k) {b : Binding}
    (hb : b.label = numberedName 'j' (lo + 1)) (env : Env) :
    Env.binding? ((level ++ [b] ++ later) :: env) (numberedName 'j' (lo + 1)) = some b := by
  have hnone : level.find? (·.label == numberedName 'j' (lo + 1)) = none := by
    rw [find?_eq_none]
    intro x hx
    rcases h.labels x hx with hl | ⟨k, hk, hl⟩
    · rw [hl]
      simpa using hq (lo + 1)
    · rw [hl, beq_iff_eq]
      intro he
      have := (numberedName_inj.mp he).2
      omega
  simp [Env.binding?, hnone, hb]

/-- **A lateral join and its item** show a member, if the join binds one row and the item gives the
member of it. -/
lemma Shape.Shows.ofJoin {query : Statement} {e : Expr} {hi : Nat} {columns : List String}
    {json : (String → Value) → Json} (hle : lo + 1 ≤ hi) (hq : ∀ k, qualifier ≠ numberedName 'j' k)
    (hcolumns : query.columns ts.catalog = some columns) (hagg : e.aggregates = false)
    (hname : isGeneratedName name = false)
    (hbound : ∀ values (level : Level) (env : Env), level.Holds r qualifier lo values →
      Env.Plain (level :: env) → ∃ b : Binding,
        b.label = numberedName 'j' (lo + 1) ∧ Level.Plain [b] ∧
          Join.levels ops ts env [.leftLateral query (numberedName 'j' (lo + 1))] [level] =
            some [level ++ [b]] ∧
          ∀ seen : Env, seen.Plain → seen.binding? (numberedName 'j' (lo + 1)) = some b →
            ∃ v, e.eval ops ts seen none = some v ∧ v.toJson = json values) :
    (Shape.ofJoin (.leftLateral query (numberedName 'j' (lo + 1)), labelled e name)).Shows ops ts r
      qualifier lo hi fun values => [(name, json values)] where
  le := (Nat.le_succ lo).trans hle
  labels := by
    intro j hj
    rw [mem_singleton.mp hj]
    exact ⟨lo + 1, Nat.lt_succ_self lo, hle, rfl⟩
  nodup := nodup_singleton _
  sources := by
    refine ⟨[(numberedName 'j' (lo + 1), columns)], ?_⟩
    rw [Shape.ofJoin, Join.leftLateral, Join.sources, FromItem.columns, hcolumns]
    rfl
  items := by
    intro item hi
    rw [mem_singleton.mp hi]
    exact ⟨rfl, hagg, hname⟩
  few := by simp [Shape.ofJoin]
  names := fun _ => rfl
  cells := by
    intro values level env hl hp
    obtain ⟨b, hlabel, hplain, hlevels, heval⟩ := hbound values level env hl hp
    refine ⟨[b], hlevels, ?_, hplain, ?_⟩
    · intro x hx
      grind
    · intro later _ hlater
      have hseen : Env.Plain ((level ++ [b] ++ later) :: env) :=
        Env.Plain.cons (((hp level (by simp)).append hplain).append hlater)
          fun l h => hp l (by simp [h])
      obtain ⟨v, hv, hjson⟩ := heval _ hseen (hl.binding?_next hq hlabel env)
      refine ⟨[(name, v)], ?_, by rw [map_singleton, hjson]⟩
      rw [Shape.ofJoin, SelectItem.cells, SelectItem.itemCells_labelled, hv]
      rfl

end StagedSql
