import Mathlib.Data.Fintype.Option
import StagedSql.Proofs.Condition.Truth
import StagedSql.Proofs.Plan.Requirements
import StagedSql.Proofs.Plan.SelectionTree

/-!
Conditions keep their meaning.

The expression of a condition has the truth value that the condition has on a row (`toSql_truth`).
Each link of a lookup becomes a sub-select, whose row goes by a name of its own: it may hide names
around it, but never the one that it is linked to.
-/

namespace StagedSql

open List Plan Condition StagedSql.Expr

variable {ops : Operators} {ts : Tables} {v : Value} {schema : Schema} {db : Database}
  {earlier : Earlier} {s : PlanState} {q : String}

/-! ### Truth values of expressions -/

@[simp] lemma Value.truth?_ofTruth (t : Option Bool) : (Value.ofTruth t).truth? = some t := by
  cases t <;> rfl

lemma bothTrue_assoc (a b c : Option Bool) :
    bothTrue (bothTrue a b) c = bothTrue a (bothTrue b c) := by
  revert a b c
  decide

lemma eitherTrue_assoc (a b c : Option Bool) :
    eitherTrue (eitherTrue a b) c = eitherTrue a (eitherTrue b c) := by
  revert a b c
  decide

lemma bothTrue_true (a : Option Bool) : bothTrue a (some true) = a := by
  revert a
  decide

lemma eitherTrue_false (a : Option Bool) : eitherTrue a (some false) = a := by
  revert a
  decide

lemma bothTrue_eq_true (a b : Option Bool) :
    bothTrue a b = some true ↔ a = some true ∧ b = some true := by
  revert a b
  decide

/-- Joining values from the left by an operation with a unit is the same as from the right. -/
lemma foldl_eq_foldr_unit {α : Type} {op : α → α → α} {unit : α}
    (hassoc : ∀ a b c, op (op a b) c = op a (op b c)) (hunit : ∀ a, op a unit = a) (l : List α) :
    ∀ a, l.foldl op a = (a :: l).foldr op unit := by
  induction l with
  | nil => exact fun a => (hunit a).symm
  | cons b rest ih =>
    simp_all

section Says

variable {env : Env} {group : Option (List Env)} {e : Expr} {truth : Option Bool} {es : List Expr}
  {truths : List (Option Bool)}

/-- An expression has a truth value where some rows are bound. -/
def Expr.Says (ops : Operators) (ts : Tables) (env : Env) (group : Option (List Env)) (e : Expr)
    (truth : Option Bool) : Prop :=
  e.eval ops ts env group = some (Value.ofTruth truth)

lemma Expr.Says.holds (h : e.Says ops ts env none truth) :
    holds ops ts env (some e) = some (truth == some true) := by
  rw [Expr.Says] at h
  rw [Expr.holds, h]
  simp

lemma Expr.Says.grouped (h : e.Says ops ts env group truth) :
    e.grouped.Says ops ts env group truth := by
  unfold Expr.grouped
  split
  · exact h
  · exact h

lemma Expr.Says.negate (h : e.Says ops ts env group truth) :
    e.negate.Says ops ts env group (truth.map fun b => !b) := by
  rw [Expr.Says] at h
  simp [Expr.Says, Expr.negate, Expr.eval, h]

lemma Expr.says_foldl {op : BinaryOp} {combine : Option Bool → Option Bool → Option Bool}
    (hop : ∀ a b, ops.apply op (.ofTruth a) (.ofTruth b) = some (.ofTruth (combine a b)))
    (hes : Forall₂ (Expr.Says ops ts env group) es truths) :
    ∀ {e : Expr} {truth : Option Bool}, e.Says ops ts env group truth →
      (es.foldl (fun acc x => .binary op acc x) e).Says ops ts env group
        (truths.foldl combine truth) := by
  induction hes with
  | nil => exact fun h => h
  | cons hx _ ih =>
    intro e truth he
    refine ih ?_
    rw [Expr.Says] at hx he ⊢
    simp [eval, hx, he, hop]

lemma Operators.apply_and (a b : Option Bool) :
    ops.apply .and (.ofTruth a) (.ofTruth b) = some (.ofTruth (bothTrue a b)) := by
  simp [Operators.apply]

lemma Operators.apply_or (a b : Option Bool) :
    ops.apply .or (.ofTruth a) (.ofTruth b) = some (.ofTruth (eitherTrue a b)) := by
  simp [Operators.apply]

/-- Conditions joined by AND. Without any, the conjunction is true. -/
lemma Expr.says_conjunction (h : Forall₂ (Expr.Says ops ts env group) es truths) :
    ((conjunction? es).getD (.bool true)).Says ops ts env group
      (truths.foldr bothTrue (some true)) := by
  have hgrouped : Forall₂ (Expr.Says ops ts env group) (es.map grouped) truths := by
    rw [forall₂_map_left_iff]
    exact h.imp fun _ _ => Expr.Says.grouped
  rw [conjunction?]
  generalize es.map grouped = conditions at hgrouped
  cases hgrouped with
  | nil => rfl
  | cons hfirst hrest =>
    rw [← foldl_eq_foldr_unit bothTrue_assoc bothTrue_true]
    exact says_foldl Operators.apply_and hrest hfirst

lemma Expr.says_disjunction (h : Forall₂ (Expr.Says ops ts env group) es truths) :
    ((disjunction? es).getD (.bool false)).Says ops ts env group
      (truths.foldr eitherTrue (some false)) := by
  cases h with
  | nil => rfl
  | cons hfirst hrest =>
    rw [← foldl_eq_foldr_unit eitherTrue_assoc eitherTrue_false]
    -- a single alternative stands bare, and several stand in parentheses
    cases hrest with
    | nil => exact hfirst
    | cons hsecond hrest =>
      exact says_foldl Operators.apply_or (.cons hsecond hrest) hfirst

/-! ### Comparisons -/

/-- Going through a list one by one finds a value if it is there, and stops short of an answer at
nulls. -/
lemma Operators.among_eq (x : Value) (items : List Value) :
    ops.among x items = ops.isOneOf x items := by
  rw [Operators.among, foldl_eq_foldr_unit eitherTrue_assoc eitherTrue_false]
  have hleft : ∀ t : Option Bool, eitherTrue (some false) t = t := by decide
  rw [foldr_cons, hleft]
  induction items with
  | nil => rfl
  | cons v rest ih =>
    rw [map_cons, foldr_cons, ih, Operators.isOneOf, Operators.isOneOf, any_cons,
      any_cons, Operators.same]
    generalize rest.any (ops.same x) = found
    generalize rest.any (fun v => x.isNull || v.isNull) = unknown
    generalize ops.equal x v = equal
    generalize x.isNull = n
    generalize v.isNull = m
    revert found unknown equal n m
    decide

lemma Expr.evalEach_params (items : List Value) :
    evalEach ops ts env group (items.map .param) = some items := by
  induction items with
  | nil => rfl
  | cons v rest ih => simp [evalEach, eval, ih]

/-- **The comparison with a value** that is made of an operator has the truth value of the
operator. -/
lemma says_compareValue {key : String} {field : Expr} {op : Operator} {x : Value}
    (h : compareValue key field op v = .ok e)
    (hx : field.eval ops ts env group = some x) : e.Says ops ts env group (op.truth ops x v) := by
  have hflip : ∀ a b : Bool, (a != !b) = (a == b) := by decide
  rw [Expr.Says]
  -- what is left after reading off the two sides is the same test of the value for null
  cases op <;> cases v <;>
    simp only [compareValue, Except.ok.injEq, reduceCtorEq] at h <;> subst h <;>
    simp only [eval, hx, Option.bind_eq_bind, Option.bind_some, Option.pure_def,
      evalEach_params, Operators.among_eq, Operator.truth, Bool.bne_true, Bool.bne_false,
      Option.map_id', hflip] <;>
    cases x <;> rfl

/-! ### Links -/

lemma Env.binding?_self (label : String) (row : Row) (env : Env) :
    Env.binding? ([⟨label, row, true⟩] :: env) label = some ⟨label, row, true⟩ := by
  simp [Env.binding?]

lemma Env.binding?_around {label q : String} (h : label ≠ q) (row : Row) (env : Env) :
    Env.binding? ([⟨label, row, true⟩] :: env) q = env.binding? q := by
  simp [Env.binding?, h]

lemma Expr.says_link {q1 q2 a b : String} {w : Value} (hv : env.column? (some q1) a = some v)
    (hw : env.column? (some q2) b = some w) :
    Expr.Says ops ts env group (.binary .eq (.of q1 a) (.of q2 b))
      (comparison v w (ops.equal v w)) := by
  simp only [Expr.Says, of, eval, hv, hw, Option.bind_eq_bind, Option.bind_some]
  cases v <;> cases w <;> rfl

lemma comparison_equal (x y : Value) :
    comparison x y (ops.equal x y) = some true ↔ ops.same x y = true := by
  rw [comparison, Operators.same]
  cases x.isNull <;> cases y.isNull <;> simp

lemma exists_pairs {α β : Type} {R : α → β → Prop} {as : List α} {bs : List β}
    (h : Forall₂ R as bs) :
    ∃ ps : List (α × β), as = ps.map Prod.fst ∧ bs = ps.map Prod.snd ∧ ∀ p ∈ ps, R p.1 p.2 := by
  induction h with
  | nil => exact ⟨[], rfl, rfl, by simp⟩
  | cons hab _ ih =>
    obtain ⟨ps, rfl, rfl, hps⟩ := ih
    refine ⟨(_, _) :: ps, rfl, rfl, ?_⟩
    simp_all

lemma filterOption_map {α β : Type} (f : α → β) (test : β → Option Bool) (l : List α) :
    filterOption test (l.map f) = (filterOption (fun a => test (f a)) l).map (List.map f) := by
  induction l with
  | nil => rfl
  | cons a rest ih =>
    rw [map_cons, filterOption, filterOption, ih]
    cases test (f a) with
    | none => rfl
    | some b => cases filterOption (fun a => test (f a)) rest <;> cases b <;> rfl

/-- **The sub-select of a link** finds whether some row of the table meets the link and what is
asked of it. It fails where one of the rows makes the test fail. -/
lemma eval_existsRow (name label : String) (link inner : Expr) (env : Env)
    (group : Option (List Env)) :
    (existsRow (tableItem name label) link inner).eval ops ts env group =
      (ts name).bind fun t => (filterOption (fun row => holds ops ts
        ([⟨label, row, true⟩] :: env) (some (.binary .and link.grouped.grouped inner.grouped)))
          t.rows).map fun kept => .bool !kept.isEmpty := by
  have hexpr : existsRow (tableItem name label) link inner =
      .existence false (.select ⟨[⟨.int 1, none⟩], some (tableItem name label), [],
        some (.binary .and link.grouped.grouped inner.grouped), [], none, none⟩) := rfl
  have hnames : (boundNames (some (tableItem name label)) []).Nodup := by simp [boundNames]
  rw [hexpr, eval, Statement.rows, Select.rows]
  simp only [hnames, not_true_eq_false, if_false, FromItem.levels, tableItem_qualifier]
  rw [tableItem, FromItem.rows]
  cases ts name with
  | none => rfl
  | some t =>
    simp only [Option.map_some, Option.bind_eq_bind, Option.bind_some, Option.pure_def,
      Join.levels, filterOption_map]
    cases filterOption (fun row => holds ops ts ([⟨label, row, true⟩] :: env)
      (some (.binary .and link.grouped.grouped inner.grouped))) t.rows with
    | none => rfl
    | some kept =>
      -- a row is given for each one that is kept, whatever it is
      have hkeyed : ∀ levels : List Level, levels.mapM (fun level =>
          (OrderItem.keys ops ts (level :: env) []).bind fun keys => some (keys, level)) =
            some (levels.map fun level => ([], level)) :=
        fun levels => mapM_eq_some_map fun _ _ => rfl
      have hcells : ∀ levels : List Level, levels.mapM (fun level =>
          SelectItem.cells ops ts (level :: env) none [⟨.int 1, none⟩]) =
            some (levels.map fun _ => [("?column?", .int 1)]) :=
        fun levels => mapM_eq_some_map fun _ _ => rfl
      have hplain : ([⟨.int 1, none⟩] : List SelectItem).any (·.expr.aggregates) = false := rfl
      have hitems : ([⟨.int 1, none⟩] : List SelectItem).isEmpty = false := rfl
      simp only [Option.map_some, Option.bind_some, hplain, hitems, Bool.false_eq_true,
        if_false, hkeyed, Operators.sorted_unordered, pageOf_none, hcells]
      cases kept <;> rfl

/-- **The sub-select of a link** is true if a row of the related relation is linked and meets what
is asked of it, and false otherwise. -/
lemma says_existsRow {r : Relation} {t : Table} {name : String} {link inner : Expr}
    {rows : List (String → Value)} {linked : (String → Value) → Bool}
    {test : (String → Value) → Option Bool} (ht : ts r.name = some t)
    (hrows : Forall₂ (fun row values => row.Gives r values) t.rows rows)
    (hlink : ∀ row values, Row.Gives row r values → ∃ truth,
      link.Says ops ts ([⟨name, row, true⟩] :: env) none truth ∧
        (truth = some true ↔ linked values = true))
    (hinner : ∀ row values, Row.Gives row r values →
      inner.Says ops ts ([⟨name, row, true⟩] :: env) none (test values)) :
    (existsRow (tableItem r.name name) link inner).Says ops ts env group
      (some (rows.any fun values => linked values && test values == some true)) := by
  obtain ⟨pairs, hfst, rfl, hgives⟩ := exists_pairs hrows
  have hcond : ∀ p ∈ pairs, holds ops ts ([⟨name, p.1, true⟩] :: env)
      (some (.binary .and link.grouped.grouped inner.grouped)) =
        some (linked p.2 && test p.2 == some true) := by
    intro p hp
    obtain ⟨truth, hvalue, htruth⟩ := hlink p.1 p.2 (hgives p hp)
    have hboth : Expr.Says ops ts ([⟨name, p.1, true⟩] :: env) none
        (.binary .and link.grouped.grouped inner.grouped) (bothTrue truth (test p.2)) :=
      says_foldl Operators.apply_and (.cons (hinner p.1 p.2 (hgives p hp)).grouped .nil)
        hvalue.grouped.grouped
    rw [hboth.holds, Option.some.injEq, Bool.eq_iff_iff, beq_iff_eq, bothTrue_eq_true, htruth]
    simp
  have hkept : filterOption (fun row => holds ops ts ([⟨name, row, true⟩] :: env)
      (some (.binary .and link.grouped.grouped inner.grouped))) (pairs.map Prod.fst) =
        some ((pairs.filter fun p => linked p.2 && test p.2 == some true).map Prod.fst) :=
    filterOption_map_some hcond
  rw [Expr.Says, eval_existsRow, ht, Option.bind_some, hfst, hkept, Option.map_some]
  refine congrArg (fun b => some (Value.bool b)) ?_
  rw [Bool.eq_iff_iff]
  simp

end Says

/-! ### Names -/

/-- Names are made up for relations with numbers that grow. -/
def numbering : Law where
  holds _ := True
  grows s s' := s.names.relations ≤ s'.names.relations
  refl _ := le_rfl
  trans := le_trans

/-- A name will not be made up for a relation any more. -/
def PlanState.Settles (s : PlanState) (q : String) : Prop :=
  ∀ k, s.names.relations < k → q ≠ numberedName 'r' k

lemma PlanState.Settles.mono {s' : PlanState} (h : s.Settles q)
    (hle : numbering.grows s s') : s'.Settles q :=
  fun k hk => h k (lt_of_le_of_lt hle hk)

/-- The name under which a relation is followed is not that of the row that it is linked to, and
will not be made up again. -/
lemma qualify_apart {name : String} {scope : List String} (hname : ∀ k, name ≠ numberedName 'r' k)
    (hq : q ∈ scope) (hsettled : s.Settles q ∨ (name ∈ scope → name = q)) :
    Keeps numbering (qualify name scope) s fun label s' =>
      s'.Settles label ∧ label ≠ q := by
  by_cases hmem : name ∈ scope
  · refine .of_run (qualify_mem hmem s) id (Nat.le_succ _) ⟨?_, ?_⟩
    · intro k hk he
      have hsame : s.names.relations + 1 = k := (numberedName_inj.mp he).2
      have hlt : s.names.relations + 1 < k := hk
      omega
    · rcases hsettled with hs | hs
      · exact (hs _ (Nat.lt_succ_self _)).symm
      · rw [← hs hmem]
        exact (hname _).symm
  · refine .of_run (qualify_not_mem hmem s) id (numbering.refl s) ⟨fun k _ => hname k, ?_⟩
    rintro rfl
    exact hmem hq

/-! ### Lookups -/

section Lookups

variable {s : PlanState} {key q : String} {path : LookupKey} {r : Relation} {c : Column}

/-- **Tables in which links can be followed**: the links of the schema fit, primary keys are
stored, no relation has a name like those made up for relations, and the tables have the contents of
a database. -/
structure Tables.Serve (ts : Tables) (schema : Schema) (db : Database) : Prop where
  linked : schema.Linked
  stored : schema.StoredKeys
  names : ∀ r ∈ schema.relations, ∀ k, r.name ≠ numberedName 'r' k
  hold : ts.Hold schema db

/-- An expression says of a row of a relation what a test says, wherever the row goes by a name. -/
def Expr.SaysOf (ops : Operators) (ts : Tables) (r : Relation) (q : String) (e : Expr)
    (test : (String → Value) → Option Bool) : Prop :=
  ∀ (env : Env) (group : Option (List Env)) (b : Binding) (values : String → Value),
    env.binding? q = some b → b.row.Gives r values → e.Says ops ts env group (test values)

lemma says_leaf :
    Keeps numbering (leaf earlier.context key path (.value v) r q) s fun e _ =>
      e.SaysOf ops ts r q fun values => path.op.truth ops (values path.field) v := by
  rw [leaf]
  split
  · rename_i c hc
    dsimp only
    split
    · exact .throw_bind
    · rename_i hreverse
      refine .of_lift fun e he env group b values hb hgives => says_compareValue he ?_
      rw [of, eval, Env.column?, hb]
      exact hgives _ (Relation.mem_storedNames hc (by simpa using hreverse))
  · exact .of_throw

lemma target_link? {segment : String} {owner related : Relation}
    (h : target schema key segment owner = .ok (c, related)) :
    schema.link? owner segment = some (c, related) := by
  rw [target] at h
  split at h
  · rename_i c' hc
    split at h
    · rename_i target ht
      split at h
      · rename_i r hr
        cases h
        simp [Schema.link?, hc, ht, hr]
      · cases h
    · cases h
  · cases h

lemma says_linkTo (hts : ts.Serve schema db) {t : Relation} (hr : r ∈ schema.relations)
    {name : String} (hc : schema.link? r name = some (c, t)) {label : String} (hne : label ≠ q)
    {env : Env} {b : Binding} {values : String → Value} (hb : env.binding? q = some b)
    (hgives : b.row.Gives r values) (row : Row) (rowValues : String → Value)
    (hrow : row.Gives t rowValues) :
    ∃ truth, (linkTo c r q t label).Says ops ts ([⟨label, row, true⟩] :: env) none truth ∧
      (truth = some true ↔ c.links ops r t values rowValues = true) := by
  obtain ⟨hcolumn, target, htarget, ht⟩ := Schema.link?_eq_some.mp hc
  have hmem : c ∈ r.columns := Relation.mem_of_column? hcolumn
  have hown : ∀ column ∈ r.storedNames,
      Env.column? ([⟨label, row, true⟩] :: env) (some q) column = some (values column) := by
    intro column h
    rw [Env.column?, Env.binding?_around hne, hb]
    exact hgives column h
  have hrelated : ∀ column ∈ t.storedNames,
      Env.column? ([⟨label, row, true⟩] :: env) (some label) column = some (rowValues column) := by
    intro column h
    rw [Env.column?, Env.binding?_self]
    exact hrow column h
  rw [linkTo, Column.links]
  cases hk : c.kind with
  | scalar => simp [Column.related?, hk] at htarget
  | forward _ =>
    have hstored : c.name ∈ r.storedNames := by
      rw [Relation.name_of_column? hcolumn]
      exact Relation.mem_storedNames hcolumn (by simp [Column.isReverse, hk])
    have hkey := hts.stored t (Schema.mem_of_get? ht)
    exact ⟨_, says_link (hrelated _ hkey) (hown _ hstored), comparison_equal _ _⟩
  | reverse target' via =>
    have hvia : via ∈ t.storedNames := by
      obtain ⟨t', ht', link, hlink, hkind⟩ := hts.linked.reverse r hr c hmem target' via hk
      have hsame : target' = target := by simpa [Column.related?, hk] using htarget
      rw [hsame, ht, Option.some.injEq] at ht'
      rw [ht']
      exact Relation.mem_storedNames hlink (by simp [Column.isReverse, hkind])
    exact ⟨_, says_link (hrelated _ hvia) (hown _ (hts.stored r hr)), comparison_equal _ _⟩

/-- **Lookups keep their meaning**, by induction on the links. The invariant is that the name of the
row that is followed from is not made up again, or that its first link needs no made up name. -/
lemma says_follow (ops : Operators) (hts : ts.Serve schema db) (links : List String) :
    ∀ {r : Relation} {q : String} {scope : List String} {s : PlanState},
      r ∈ schema.relations → q ∈ scope →
      (s.Settles q ∨ ∀ t ∈ schema.relations, t.name ∈ scope → t.name = q) →
      Keeps numbering
        (follow earlier.context schema key path (.value v) links r q scope) s fun e _ =>
          e.SaysOf ops ts r q fun values => pathTruth ops schema db
            (fun row => path.op.truth ops (row path.field) v) links r values := by
  induction links with
  | nil => exact fun _ _ _ => says_leaf
  | cons segment rest ih =>
    intro r q scope s hr hq hsettled
    refine .lift_bind fun ⟨c, t⟩ htarget => ?_
    have hlink := target_link? htarget
    obtain ⟨-, target, -, htarget⟩ := Schema.link?_eq_some.mp hlink
    have ht : t ∈ schema.relations := Schema.mem_of_get? htarget
    refine (qualify_apart (hts.names t ht) hq (hsettled.imp_right fun h => h t ht)).bind
      fun label s1 _ ⟨hlabel, hne⟩ => ?_
    refine (ih ht (mem_append_right scope (.head _)) (.inl hlabel)).bind
      fun inner s2 _ hinner => .of_pure ?_
    intro env group b values hb hgives
    obtain ⟨table, htable, hrows⟩ := hts.hold t ht
    -- the sub-select is true exactly if the path leads on from one of the linked rows
    have htruth : pathTruth ops schema db (fun row => path.op.truth ops (row path.field) v)
        (segment :: rest) r values = some ((db.rows t.name).any fun row =>
          c.links ops r t values row && pathTruth ops schema db
            (fun row => path.op.truth ops (row path.field) v) rest t row == some true) := by
      rw [pathTruth, if_neg (cons_ne_nil _ _), Option.some.injEq, Bool.eq_iff_iff,
        decide_eq_true_iff, reaches_cons, any_eq_true]
      constructor
      · rintro ⟨c', t', hlink', row, hrow, hlinks, hrest⟩
        rw [hlink, Option.some.injEq, Prod.mk.injEq] at hlink'
        obtain ⟨rfl, rfl⟩ := hlink'
        exact ⟨row, hrow, by simp [hlinks, pathTruth_eq_true.mpr hrest]⟩
      · rintro ⟨row, hrow, hboth⟩
        rw [Bool.and_eq_true, beq_iff_eq, pathTruth_eq_true] at hboth
        exact ⟨c, t, hlink, row, hrow, hboth.1, hboth.2⟩
    beta_reduce
    rw [htruth]
    exact says_existsRow htable hrows (says_linkTo hts hr hlink hne hb hgives)
      fun row rowValues => hinner _ none _ rowValues (Env.binding?_self label row env)

end Lookups

/-! ### Conditions -/

mutual

theorem says_toSqlIn (ops : Operators) (hts : ts.Serve schema db) {r : Relation}
    (hr : r ∈ schema.relations) {q : String} {scope : List String} (hq : q ∈ scope) :
    ∀ {c : Condition} {s : PlanState}, c.OfValues →
      (s.Settles q ∨ ∀ t ∈ schema.relations, t.name ∈ scope → t.name = q) →
      Keeps numbering (toSqlIn earlier.context schema r q scope c) s fun e _ =>
        e.SaysOf ops ts r q fun values => c.truth ops schema db r values
  | .lookup key operand, s, hc, hsettled => by
    rw [OfValues] at hc
    obtain ⟨v, rfl⟩ := hc
    rw [toSqlIn]
    refine .lift_bind fun path hpath => ?_
    refine (says_follow ops hts path.joins hr hq hsettled).mono fun e s' _ hvalue => ?_
    intro env group b values hb hgives
    simp only [truth, hpath]
    exact hvalue env group b values hb hgives
  | .all items, s, hc, hsettled => by
    rw [OfValues] at hc
    rw [toSqlIn]
    refine (says_toSqlEach ops hts hr hq hc hsettled).bind fun es s1 _ hes =>
      .of_pure fun env group b values hb hgives => ?_
    simp only [truth]
    exact says_conjunction (hes env group b values hb hgives)
  | .any items, s, hc, hsettled => by
    rw [OfValues] at hc
    rw [toSqlIn]
    refine (says_toSqlEach ops hts hr hq hc hsettled).bind fun es s1 _ hes =>
      .of_pure fun env group b values hb hgives => ?_
    simp only [truth]
    exact says_disjunction (hes env group b values hb hgives)
  | .not c, s, hc, hsettled => by
    rw [OfValues] at hc
    rw [toSqlIn]
    refine (says_toSqlIn ops hts hr hq hc hsettled).bind fun e s1 _ he =>
      .of_pure fun env group b values hb hgives => ?_
    simp only [truth]
    exact (he env group b values hb hgives).negate

theorem says_toSqlEach (ops : Operators) (hts : ts.Serve schema db) {r : Relation}
    (hr : r ∈ schema.relations) {q : String} {scope : List String} (hq : q ∈ scope) :
    ∀ {items : List Condition} {s : PlanState}, AreOfValues items →
      (s.Settles q ∨ ∀ t ∈ schema.relations, t.name ∈ scope → t.name = q) →
      Keeps numbering (toSqlEach earlier.context schema r q scope items) s
        fun es _ => ∀ (env : Env) (group : Option (List Env)) (b : Binding)
          (values : String → Value), env.binding? q = some b → b.row.Gives r values →
            Forall₂ (Expr.Says ops ts env group) es (truths ops schema db r values items)
  | [], s, _, _ => by
    rw [toSqlEach]
    exact .of_pure fun _ _ _ _ _ _ => .nil
  | c :: rest, s, hc, hsettled => by
    rw [AreOfValues] at hc
    rw [toSqlEach]
    refine (says_toSqlIn ops hts hr hq hc.1 hsettled).bind fun e s1 hle hfirst => ?_
    refine (says_toSqlEach ops hts hr hq hc.2
      (hsettled.imp_left fun h => h.mono hle)).bind fun es s2 _ hrest => .of_pure ?_
    intro env group b values hb hgives
    exact .cons (hfirst env group b values hb hgives) (hrest env group b values hb hgives)

end

/-- **Conditions keep their meaning.** In an accepted schema with stored primary keys, without
relations that are named like those made up, let a condition that compares with values be turned
into an expression. Where a row of the relation goes by the qualifier, the expression has the truth
value of the condition on that row, whatever the tables hold and whatever else is bound. The
qualifier is any name if the scope holds no other, and otherwise a name that will not be made up. -/
theorem toSql_truth {id : Nat} {relations : List Relation}
    (hschema : Schema.ofRelations id relations = .ok schema) (hstored : schema.StoredKeys)
    (hnames : ∀ r ∈ schema.relations, ∀ k, r.name ≠ numberedName 'r' k)
    (hts : ts.Hold schema db) {r : Relation} (hr : r ∈ schema.relations) {c : Condition}
    (hc : c.OfValues) {q : String} {scope : List String} {s s' : PlanState}
    (hq : scope = [] ∨ s.Settles q) {e : Expr}
    (h : c.toSql earlier.context schema r q scope s = .ok (e, s')) {env : Env} {b : Binding}
    (hb : env.binding? q = some b) {values : String → Value} (hrow : b.row.Gives r values)
    (group : Option (List Env)) :
    e.eval ops ts env group = some (Value.ofTruth (c.truth ops schema db r values)) := by
  have hscope : q ∈ addOnce scope q := mem_addOnce.mpr (.inr rfl)
  have hsettled : s.Settles q ∨ ∀ t ∈ schema.relations, t.name ∈ addOnce scope q → t.name = q := by
    rcases hq with rfl | hq
    · exact .inr fun t _ ht => by simpa [addOnce] using ht
    · exact .inl hq
  have hserve : ts.Serve schema db := ⟨linked_of_ofRelations hschema, hstored, hnames, hts⟩
  have hvalue := says_toSqlIn ops hserve hr hscope hc hsettled trivial e s' h
  exact hvalue.2.2 env group b values hb hrow

/-! ### The tables of a database -/

lemma Relation.row_gives {r : Relation} (hnodup : (r.columns.map (·.name)).Nodup)
    (values : String → Value) : (r.row values).Gives r values :=
  fun _ hc => Relation.row_cell? (Relation.storedNames_nodup hnodup) hc values

/-- The tables of a database have its contents. -/
lemma Database.tables_hold (hlinked : schema.Linked)
    (hget : ∀ r ∈ schema.relations, schema.get? r.name = some r) :
    (db.tables schema).Hold schema db := by
  intro r hr
  refine ⟨db.table r, by rw [Database.tables, hget r hr, Option.map_some], ?_⟩
  rw [Database.table, forall₂_map_left_iff, forall₂_same]
  exact fun values _ => Relation.row_gives (hlinked.columns_nodup r hr) values

/-- The authors of the library. -/
def libraryAuthors : Relation :=
  ⟨"author", [.primary "id", .scalar "name", .reverse "books" "book" "author"]⟩

/-- A book leads back to the author with number 1 and there is a name, or the number is among 3 and
null. -/
def libraryCondition : Condition :=
  .any [.all [.lookup "books__author__id" (.value (.int 1)),
      .not (.lookup "name__nu" (.value (.bool true)))],
    .lookup "id__in" (.value (.array [.int 3, .null]))]

/-- In the library, the condition is true of the first author. Of the second one it is unknown, who
has no books and whose number may be the null. -/
theorem toSql_truth_library :
    ∃ e s', libraryCondition.toSql Earlier.none.context library.schema libraryAuthors "author" []
        .initial = .ok (e, s') ∧
      (libraryContents.rows "author").map (fun values =>
        e.eval integerOperators (libraryContents.tables library.schema)
          [[⟨"author", libraryAuthors.row values, true⟩]] none) =
        [some (.bool true), some .null] := by
  have hschema : Schema.ofRelations 0 libraryRelations = .ok library.schema := rfl
  have hnames : ∀ r ∈ library.schema.relations, ∀ k, r.name ≠ numberedName 'r' k := by
    intro r hr k
    have hplain : ∀ r ∈ library.schema.relations, isGeneratedName r.name = false := by decide
    exact ne_numberedName (hplain r hr) (by decide)
  have hhold : (libraryContents.tables library.schema).Hold library.schema libraryContents :=
    Database.tables_hold (linked_of_ofRelations hschema) (by decide)
  have hauthors : libraryAuthors ∈ library.schema.relations := by decide
  have hvalues : libraryCondition.OfValues := by
    simp [libraryCondition, Condition.OfValues, AreOfValues]
  obtain ⟨e, s', he⟩ : ∃ e s', libraryCondition.toSql Earlier.none.context library.schema
      libraryAuthors "author" [] .initial = .ok (e, s') := ⟨_, _, rfl⟩
  have heval : ∀ values, e.eval integerOperators (libraryContents.tables library.schema)
      [[⟨"author", libraryAuthors.row values, true⟩]] none =
        some (Value.ofTruth (libraryCondition.truth integerOperators library.schema libraryContents
          libraryAuthors values)) :=
    fun values =>
      toSql_truth hschema library_storedKeys hnames hhold hauthors hvalues (.inl rfl) he rfl
      (Relation.row_gives (by decide) values) none
  refine ⟨e, s', he, ?_⟩
  simp only [heval]
  rfl

/-- **A key that is not stored** is compared all the same. The book has an author of the name, but
the expression reads a column that the table of authors does not have. -/
theorem unstored_key_comparison :
    let book : Relation := ⟨"book", [.primary "id", .forward "author" "author"]⟩
    let named : Condition := .lookup "author__name" (.value (.text "first"))
    Schema.ofRelations 0 unkeyed.schema.relations = .ok unkeyed.schema ∧
      ∃ e s', named.toSql Earlier.none.context unkeyed.schema book "book" [] .initial =
          .ok (e, s') ∧
        ∀ values ∈ unkeyedContents.rows "book",
          named.truth integerOperators unkeyed.schema unkeyedContents book values = some true ∧
          e.eval integerOperators (unkeyedContents.tables unkeyed.schema)
            [[⟨"book", book.row values, true⟩]] none = none := by
  refine ⟨rfl, _, _, rfl, ?_⟩
  intro values hvalues
  rw [mem_singleton.mp hvalues]
  exact ⟨rfl, rfl⟩

end StagedSql
