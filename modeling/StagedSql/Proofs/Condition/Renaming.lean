import StagedSql.Proofs.Condition.Conjuncts
import StagedSql.Proofs.Plan.Scoping

/-!
Conditions under other made up names.

Which names are made up for the rows that a condition leads to depends on what was planned before. A
condition that is planned twice has the same truth value all the same.
-/

namespace StagedSql

open List Plan Condition StagedSql.Expr

variable {q key : String} {env env' : Env} {e : Expr}

/-! ### The same rows under other names -/

/-- Two names are the same, or both are made up for relations. -/
def NamesLike (a b : String) : Prop :=
  a = b ∨ (∃ j, a = numberedName 'r' j) ∧ ∃ k, b = numberedName 'r' k

/-- The same row under a like name. -/
structure Binding.Like (b b' : Binding) : Prop where
  label : NamesLike b.label b'.label
  row : b.row = b'.row
  found : b.found = b'.found

/-- **The same rows under like names.** -/
def Env.Like (env env' : Env) : Prop := Forall₂ (Forall₂ Binding.Like) env env'

/-- The row that goes by a name. -/
def Env.row? (env : Env) (q : String) : Option Row := (env.binding? q).map (·.row)

section Names

variable {a b : String}

lemma NamesLike.refl (a : String) : NamesLike a a := .inl rfl

/-- Names that are not made up are told apart by like names. -/
lemma NamesLike.eq_iff (h : NamesLike a b) (hq : ∀ k, q ≠ numberedName 'r' k) :
    a = q ↔ b = q := by
  rcases h with rfl | ⟨⟨j, rfl⟩, k, rfl⟩
  · exact Iff.rfl
  · tauto

lemma mem_iff_of_like {scope scope' : List String} (h : Forall₂ NamesLike scope scope')
    (hq : ∀ k, q ≠ numberedName 'r' k) : q ∈ scope ↔ q ∈ scope' := by
  induction h with
  | nil => simp
  | cons hab _ ih => rw [mem_cons, mem_cons, ih, eq_comm, hab.eq_iff hq, eq_comm]

lemma Env.Like.refl (env : Env) : env.Like env :=
  forall₂_same.mpr fun _ _ => forall₂_same.mpr fun b _ => ⟨.refl b.label, rfl, rfl⟩

lemma Env.Like.cons (h : env.Like env') (hab : NamesLike a b) (row : Row) :
    Env.Like ([⟨a, row, true⟩] :: env) ([⟨b, row, true⟩] :: env') :=
  Forall₂.cons (.cons ⟨hab, rfl, rfl⟩ .nil) h

lemma Level.find?_like {level level' : Level} (h : Forall₂ Binding.Like level level')
    (hq : ∀ k, q ≠ numberedName 'r' k) :
    (level.find? (·.label == q)).map (·.row) = (level'.find? (·.label == q)).map (·.row) := by
  induction h with
  | nil => rfl
  | @cons b b' _ _ hbb _ ih =>
    have hlabel := hbb.label.eq_iff hq
    by_cases hl : b.label = q
    · rw [find?_cons_of_pos (by simpa using hl),
        find?_cons_of_pos (by simpa using hlabel.mp hl), Option.map_some, Option.map_some,
        hbb.row]
    · simp_all

lemma Env.Like.row?_eq (h : env.Like env') (hq : ∀ k, q ≠ numberedName 'r' k) :
    env.row? q = env'.row? q := by
  induction h with
  | nil => rfl
  | @cons level level' _ _ hlevel _ ih =>
    have hfind := Level.find?_like hlevel hq
    rw [Env.row?, Env.binding?, Env.row?, Env.binding?]
    cases hl : level.find? (·.label == q) with
    | none =>
      rw [hl] at hfind
      rwa [Option.map_eq_none_iff.mp hfind.symm]
    | some b =>
      grind

lemma Env.row?_self (a : String) (row : Row) (env : Env) :
    Env.row? ([⟨a, row, true⟩] :: env) a = some row := by
  rw [Env.row?, Env.binding?_self]
  rfl

lemma Env.row?_around (h : a ≠ q) (row : Row) (env : Env) :
    Env.row? ([⟨a, row, true⟩] :: env) q = env.row? q := by
  rw [Env.row?, Env.binding?_around h, Env.row?]

end Names

/-! ### Expressions that agree -/

section Agreement

variable (ops : Operators) (ts ts' : Tables)

/-- Two sub-selects give the same rows wherever they stand. -/
def Statement.SameRows (query query' : Statement) : Prop :=
  ∀ env env' : Env, env.Like env' → query.rows ops ts env = query'.rows ops ts' env'

/-- The value of an expression does not depend on names that were made up. -/
def Expr.Steady (e : Expr) : Prop :=
  ∀ env env' : Env, env.Like env' → e.eval ops ts env none = e.eval ops ts' env' none

/-- **Two expressions agree** where a row goes by `q` and by `q'`: they compare with equally many
sub-selects, and have the same truth value if these give the same rows. -/
structure Expr.Agree (q q' : String) (e e' : Expr) : Prop where
  operands : e.operands.length = e'.operands.length
  truth : Forall₂ (Statement.SameRows ops ts ts') e.operands e'.operands →
    ∀ env env' : Env, env.Like env' → env.row? q = env'.row? q' →
      e.truth ops ts env = e'.truth ops ts' env'

end Agreement

section Agreeing

variable {ops : Operators} {ts ts' : Tables} {q' c label label' : String} {α β : Type}
  {es es' : List Expr} {e' x : Expr} {op : Operator} {v : Value} {owner related : Relation}

lemma eval_of (q c : String) (env : Env) (group : Option (List Env)) :
    (of q c).eval ops ts env group = (env.row? q).bind (·.cell? c) := by
  rw [of, eval, Env.column?, Env.row?]
  cases env.binding? q <;> rfl

lemma of_steady (hq : ∀ k, q ≠ numberedName 'r' k) (c : String) :
    (of q c).Steady ops ts ts' := by
  intro env env' h
  rw [eval_of, eval_of, h.row?_eq hq]

/-- Lists that are related are related part by part, if the parts are equally long. -/
lemma forall₂_append_iff {R : α → β → Prop} {as bs : List α} {cs ds : List β}
    (hlen : as.length = cs.length) :
    Forall₂ R (as ++ bs) (cs ++ ds) ↔ Forall₂ R as cs ∧ Forall₂ R bs ds := by
  induction as generalizing cs with
  | nil =>
    cases cs with
    | nil => simp
    | cons c rest => cases hlen
  | cons a rest ih =>
    cases cs with
    | nil => cases hlen
    | cons c more =>
      rw [cons_append, cons_append, forall₂_cons, forall₂_cons, ih (Nat.succ.inj hlen), and_assoc]

lemma Expr.Agree.lengths (h : Forall₂ (Expr.Agree ops ts ts' q q') es es') :
    (es.flatMap Expr.operands).length = (es'.flatMap Expr.operands).length := by
  induction h with
  | nil => rfl
  | cons hab _ ih =>
    rw [flatMap_cons, flatMap_cons, length_append, length_append, hab.operands, ih]

lemma Expr.Agree.truths (h : Forall₂ (Expr.Agree ops ts ts' q q') es es')
    (hrows : Forall₂ (Statement.SameRows ops ts ts') (es.flatMap Expr.operands)
      (es'.flatMap Expr.operands)) (henv : env.Like env') (hq : env.row? q = env'.row? q') :
    es.map (Expr.truth ops ts env) = es'.map (Expr.truth ops ts' env') := by
  induction h with
  | nil => rfl
  | cons hab _ ih =>
    rw [flatMap_cons, flatMap_cons, forall₂_append_iff hab.operands] at hrows
    rw [map_cons, map_cons, hab.truth hrows.1 env env' henv hq, ih hrows.2]

lemma Expr.Agree.conjunction (h : Forall₂ (Expr.Agree ops ts ts' q q') es es') :
    Expr.Agree ops ts ts' q q' ((conjunction? es).getD (.bool true))
      ((conjunction? es').getD (.bool true)) := by
  refine ⟨?_, fun hrows env env' henv hq => ?_⟩
  · rw [operands_getD, operands_getD, operands_conjunction, operands_conjunction, lengths h]
  · rw [operands_getD, operands_getD, operands_conjunction, operands_conjunction] at hrows
    rw [truth_conjunction, truth_conjunction, truths h hrows henv hq]

lemma Expr.Agree.disjunction (h : Forall₂ (Expr.Agree ops ts ts' q q') es es') :
    Expr.Agree ops ts ts' q q' ((disjunction? es).getD (.bool false))
      ((disjunction? es').getD (.bool false)) := by
  refine ⟨?_, fun hrows env env' henv hq => ?_⟩
  · rw [operands_getD, operands_getD, operands_disjunction, operands_disjunction, lengths h]
  · rw [operands_getD, operands_getD, operands_disjunction, operands_disjunction] at hrows
    rw [truth_disjunction, truth_disjunction, truths h hrows henv hq]

lemma Expr.Agree.negate (h : Expr.Agree ops ts ts' q q' e e') :
    Expr.Agree ops ts ts' q q' e.negate e'.negate := by
  refine ⟨?_, fun hrows env env' henv hq => ?_⟩
  · simpa only [Expr.negate, Expr.operands] using h.operands
  · rw [truth_negate, truth_negate, h.truth hrows env env' henv hq]

/-! ### Comparisons -/

lemma Expr.Agree.of_eval (hlen : e.operands.length = e'.operands.length)
    (heval : Forall₂ (Statement.SameRows ops ts ts') e.operands e'.operands →
      ∀ env env' : Env, env.Like env' → env.row? q = env'.row? q' →
        e.eval ops ts env none = e'.eval ops ts' env' none) : Expr.Agree ops ts ts' q q' e e' :=
  ⟨hlen, fun hrows env env' henv hq => by
    rw [Expr.truth, Expr.truth, heval hrows env env' henv hq]⟩

lemma operands_compareValue (h : compareValue key (.of q c) op v = .ok e) : e.operands = [] := by
  have hparams : ∀ items : List Value, operandsEach (items.map param) = [] := by
    intro items
    induction items with
    | nil => rfl
    | cons v rest ih => simp [operandsEach, operands, ih]
  cases op <;> cases v <;> simp only [compareValue, Except.ok.injEq, reduceCtorEq] at h <;>
    subst h <;> simp [operands, of, hparams]

lemma agree_compareValue (h : compareValue key (.of q c) op v = .ok e)
    (h' : compareValue key (.of q' c) op v = .ok e') : Expr.Agree ops ts ts' q q' e e' := by
  refine .of_eval ?_ fun _ env env' _ hq => ?_
  · rw [operands_compareValue h, operands_compareValue h']
  · have hfield : ∀ ops ts ts', (of q c).eval ops ts env none =
        (of q' c).eval ops ts' env' none := by
      intro ops ts ts'
      rw [eval_of, eval_of, hq]
    -- both comparisons are of one form, which the operator and the value settle
    cases op <;> cases v <;>
      simp only [compareValue, Except.ok.injEq, reduceCtorEq] at h h' <;> subst h <;> subst h' <;>
      simp only [eval, hfield ops ts ts', evalEach_params]

lemma operands_compareExpr
    (h : compareExpr key (.of q c) op x = .ok e) : e.operands = x.operands := by
  cases op <;> simp only [compareExpr, Except.ok.injEq, reduceCtorEq] at h <;> subst h <;>
    simp [operands, of, operandsEach]

lemma agree_compareExpr (hx : x.Steady ops ts ts') (h : compareExpr key (.of q c) op x = .ok e)
    (h' : compareExpr key (.of q' c) op x = .ok e') : Expr.Agree ops ts ts' q q' e e' := by
  refine .of_eval ?_ fun _ env env' henv hq => ?_
  · rw [operands_compareExpr h, operands_compareExpr h']
  · have hfield : (of q c).eval ops ts env none = (of q' c).eval ops ts' env' none := by
      rw [eval_of, eval_of, hq]
    have hvalue := hx env env' henv
    cases op <;> simp only [compareExpr, Except.ok.injEq, reduceCtorEq] at h h' <;> subst h <;>
      subst h' <;> simp only [eval, evalEach, hfield, hvalue]

lemma agree_compareQuery {query query' : Statement}
    (h : compareQuery key (.of q c) op query = .ok e)
    (h' : compareQuery key (.of q' c) op query' = .ok e') : Expr.Agree ops ts ts' q q' e e' := by
  refine .of_eval ?_ fun hrows env env' henv hq => ?_
  · cases op <;> simp only [compareQuery, Except.ok.injEq, reduceCtorEq] at h h' <;> subst h <;>
      subst h' <;> simp [operands, of]
  · have hfield : (of q c).eval ops ts env none = (of q' c).eval ops ts' env' none := by
      rw [eval_of, eval_of, hq]
    cases op <;> simp only [compareQuery, Except.ok.injEq, reduceCtorEq] at h h' <;> subst h <;>
      subst h' <;> simp only [operands, of, nil_append, forall₂_cons,
        forall₂_nil_left_iff, and_true] at hrows <;>
      simp only [eval, hfield, hrows env env' henv]

/-! ### Links -/

lemma operands_existsRow (item : FromItem) (link inner : Expr) :
    (existsRow item link inner).operands = link.operands ++ inner.operands := by
  have hexpr : existsRow item link inner =
      .existence false (.select ⟨[⟨.int 1, none⟩], some item, [],
        some (.binary .and link.grouped.grouped inner.grouped), [], none, none⟩) := rfl
  rw [hexpr, operands, Statement.operands, operands, operands_grouped, operands_grouped,
    operands_grouped]

lemma operands_linkTo (c : Column) (owner related : Relation) (q label : String) :
    (linkTo c owner q related label).operands = [] := by
  rw [linkTo]
  split <;> simp [operands, of]

lemma truth_linkTo {c : Column} (hq : env.row? q = env'.row? q')
    (hlabel : env.row? label = env'.row? label') :
    (linkTo c owner q related label).truth ops ts env =
      (linkTo c owner q' related label').truth ops ts' env' := by
  unfold linkTo
  cases c.kind <;> simp only [Expr.truth, Expr.eval, eval_of, hq, hlabel]

/-- **The sub-select of a link**, under other names. The row that it leads to must not take the name
of the row that it is linked to. -/
lemma Expr.Agree.existsRow {c : Column} {inner inner' : Expr}
    (htable : ts related.name = ts' related.name) (hlike : NamesLike label label') (hne : label ≠ q)
    (hne' : label' ≠ q') (h : Expr.Agree ops ts ts' label label' inner inner') :
    Expr.Agree ops ts ts' q q' (existsRow (tableItem related.name label)
        (linkTo c owner q related label) inner)
      (existsRow (tableItem related.name label') (linkTo c owner q' related label') inner') := by
  refine ⟨?_, fun hrows env env' henv hq => ?_⟩
  · simpa only [operands_existsRow, operands_linkTo, nil_append] using h.operands
  · simp only [operands_existsRow, operands_linkTo, nil_append] at hrows
    rw [Expr.truth, Expr.truth, eval_existsRow, eval_existsRow, htable]
    refine congrArg (Option.bind · _) (congrArg _ (funext fun t => congrArg _ ?_))
    refine congrArg (filterOption · t.rows) (funext fun row => ?_)
    have hself : Env.row? ([⟨label, row, true⟩] :: env) label =
        Env.row? ([⟨label', row, true⟩] :: env') label' := by
      rw [Env.row?_self, Env.row?_self]
    have hown : Env.row? ([⟨label, row, true⟩] :: env) q =
        Env.row? ([⟨label', row, true⟩] :: env') q' := by
      rw [Env.row?_around hne, Env.row?_around hne', hq]
    simp only [holds_eq_truth, Option.getD_some, truth_and, truth_grouped]
    rw [truth_linkTo hown hself, h.truth hrows _ _ (henv.cons hlike row) hself]

end Agreeing

/-! ### Conditions -/

section Conditions

variable {ops : Operators} {ts ts' : Tables} {schema : Schema} {earlier : Earlier}
  {path : LookupKey} {operand : Operand} {r : Relation} {s s' s1 s1' : PlanState}
  {scope : List String} {e' : Expr} {q' : String}

/-- **The tables agree on all relations**, none of which has a name that is made up for one. -/
structure Tables.Match (ts ts' : Tables) (schema : Schema) : Prop where
  names : ∀ r ∈ schema.relations, ∀ k, r.name ≠ numberedName 'r' k
  tables : ∀ r ∈ schema.relations, ts r.name = ts' r.name

lemma leaf_compares (h : leaf earlier.context key path operand r q s = .ok (e, s')) :
    match operand with
    | .value v => compareValue key (.of q path.field) path.op v = .ok e
    | .expr x => compareExpr key (.of q path.field) path.op x = .ok e
    | .query _ => ∃ query, compareQuery key (.of q path.field) path.op query = .ok e := by
  unfold leaf at h
  cases hc : r.column? path.field with
  | none =>
    rw [hc] at h
    cases h
  | some c =>
    rw [hc] at h
    dsimp only at h
    split at h
    · cases h
    · cases operand with
      | value v => exact (lift_eq_ok h).1
      | expr x => exact (lift_eq_ok h).1
      | query handle =>
        obtain ⟨query, s1, -, hcompare⟩ := bind_eq_ok h
        exact ⟨query, (lift_eq_ok hcompare).1⟩

lemma agree_leaf (hx : ∀ x, operand = .expr x → x.Steady ops ts ts')
    (h : leaf earlier.context key path operand r q s = .ok (e, s1))
    (h' : leaf earlier.context key path operand r q' s' = .ok (e', s1')) :
    Expr.Agree ops ts ts' q q' e e' := by
  have hleaf := leaf_compares h
  have hleaf' := leaf_compares h'
  cases operand with
  | value v => exact agree_compareValue hleaf hleaf'
  | expr x => exact agree_compareExpr (hx x rfl) hleaf hleaf'
  | query handle =>
    obtain ⟨query, hquery⟩ := hleaf
    obtain ⟨query', hquery'⟩ := hleaf'
    exact agree_compareQuery hquery hquery'

lemma qualify_like {name : String} {scope' : List String} {label label' : String}
    (hname : ∀ k, name ≠ numberedName 'r' k) (hscope : Forall₂ NamesLike scope scope')
    (h : qualify name scope s = .ok (label, s1))
    (h' : qualify name scope' s' = .ok (label', s1')) : NamesLike label label' := by
  by_cases hmem : name ∈ scope
  · rw [qualify_mem hmem] at h
    rw [qualify_mem ((mem_iff_of_like hscope hname).mp hmem)] at h'
    cases h
    cases h'
    exact .inr ⟨⟨_, rfl⟩, _, rfl⟩
  · rw [qualify_not_mem hmem] at h
    rw [qualify_not_mem fun h => hmem ((mem_iff_of_like hscope hname).mpr h)] at h'
    cases h
    cases h'
    exact .inl rfl

/-- A lookup that follows a link is the sub-select of the link around the rest of the lookup. -/
lemma follow_cons {segment : String} {rest : List String}
    (h : follow earlier.context schema key path operand (segment :: rest) r q scope s =
      .ok (e, s')) :
    ∃ c t label inner s1 s2, target schema key segment r = .ok (c, t) ∧
      qualify t.name scope s = .ok (label, s1) ∧
      follow earlier.context schema key path operand rest t label (scope ++ [label]) s1 =
        .ok (inner, s2) ∧
      e = existsRow (tableItem t.name label) (linkTo c r q t label) inner := by
  obtain ⟨⟨c, t⟩, s0, hlift, hqualify⟩ := bind_eq_ok h
  obtain ⟨htarget, rfl⟩ := lift_eq_ok hlift
  obtain ⟨label, s1, hlabel, hfollow⟩ := bind_eq_ok hqualify
  obtain ⟨inner, s2, hinner, hpure⟩ := bind_eq_ok hfollow
  cases hpure
  exact ⟨c, t, label, inner, s1, _, htarget, hlabel, hinner, rfl⟩

/-- **Lookups under other names**, by induction on the links. In both runs the name of the row that
is followed from is not made up again, or its first link needs no made up name. -/
lemma agree_follow (hts : ts.Match ts' schema) (hx : ∀ x, operand = .expr x → x.Steady ops ts ts')
    (links : List String) :
    ∀ {r : Relation} {q q' : String} {scope scope' : List String} {s s1 s' s1' : PlanState}
      {e e' : Expr}, q ∈ scope → q' ∈ scope' → Forall₂ NamesLike scope scope' →
      (s.Settles q ∨ ∀ t ∈ schema.relations, t.name ∈ scope → t.name = q) →
      (s'.Settles q' ∨ ∀ t ∈ schema.relations, t.name ∈ scope' → t.name = q') →
      follow earlier.context schema key path operand links r q scope s = .ok (e, s1) →
      follow earlier.context schema key path operand links r q' scope' s' = .ok (e', s1') →
      Expr.Agree ops ts ts' q q' e e' := by
  induction links with
  | nil => exact fun _ _ _ _ _ h h' => agree_leaf hx h h'
  | cons segment rest ih =>
    intro r q q' scope scope' s s1 s' s1' e e' hq hq' hscope hsettled hsettled' h h'
    obtain ⟨c, t, label, inner, s2, s3, htarget, hlabel, hinner, rfl⟩ := follow_cons h
    obtain ⟨c', t', label', inner', s2', s3', htarget', hlabel', hinner', rfl⟩ := follow_cons h'
    cases htarget.symm.trans htarget'
    obtain ⟨-, target, -, hget⟩ := Schema.link?_eq_some.mp (target_link? htarget)
    have ht : t ∈ schema.relations := Schema.mem_of_get? hget
    have hname := hts.names t ht
    obtain ⟨-, -, hfresh, hne⟩ := qualify_apart hname hq (hsettled.imp_right fun h => h t ht)
      trivial label s2 hlabel
    obtain ⟨-, -, hfresh', hne'⟩ := qualify_apart hname hq' (hsettled'.imp_right fun h => h t ht)
      trivial label' s2' hlabel'
    have hlike := qualify_like hname hscope hlabel hlabel'
    refine .existsRow (hts.tables t ht) hlike hne hne' ?_
    exact ih (by simp) (by simp) (rel_append hscope (.cons hlike .nil)) (.inl hfresh)
      (.inl hfresh') hinner hinner'

lemma exprsEach_conjuncts (cs : List Condition) :
    exprsEach (cs.flatMap conjuncts) = exprsEach cs := by
  have happend : ∀ as bs : List Condition, exprsEach (as ++ bs) =
      exprsEach as ++ exprsEach bs := by
    intro as bs
    induction as with
    | nil => rw [nil_append, exprsEach, nil_append]
    | cons a rest ih =>
      rw [cons_append, exprsEach, exprsEach, ih, append_assoc]
  have hone : ∀ c : Condition, exprsEach c.conjuncts = c.exprs := by
    intro c
    cases c with
    | all items => rw [conjuncts, exprs]
    | _ => simp [conjuncts, exprsEach]
  induction cs with
  | nil => rfl
  | cons c rest ih => rw [flatMap_cons, happend, hone, ih, exprsEach]

/-- **Conditions that refer to no node** compare with no sub-selects but those of the expressions
that they hold. -/
lemma operands_makes : earlier.Makes (fun x => x.operands = []) (fun _ => False) fun e =>
    e.operands = [] where
  value := operands_compareValue
  expr hx h := (operands_compareExpr h).trans hx
  query hh := hh.elim
  link h := by rw [operands_existsRow, operands_linkTo, h, append_nil]
  all h := by rwa [operands_getD, operands_conjunction, flatMap_eq_nil_iff]
  any h := by rwa [operands_getD, operands_disjunction, flatMap_eq_nil_iff]
  not {e} h := by rwa [negate, operands, operands]

mutual

/-- **Conditions under other names**, by recursion on them. -/
theorem agree_toSqlIn {s s' s1 s1' : PlanState} {e e' : Expr} (hts : ts.Match ts' schema) :
    ∀ {c : Condition}, (∀ x ∈ c.exprs, x.Steady ops ts ts') →
      toSqlIn earlier.context schema r q [q] c s = .ok (e, s1) →
      toSqlIn earlier.context schema r q [q] c s' = .ok (e', s1') →
      Expr.Agree ops ts ts' q q e e'
  | .lookup key operand, hx, h, h' => by
    obtain ⟨path, s2, hlift, hfollow⟩ := bind_eq_ok h
    obtain ⟨path', s2', hlift', hfollow'⟩ := bind_eq_ok h'
    obtain ⟨hpath, rfl⟩ := lift_eq_ok hlift
    obtain ⟨hpath', rfl⟩ := lift_eq_ok hlift'
    cases hpath.symm.trans hpath'
    have hoperand : ∀ x, operand = .expr x → x.Steady ops ts ts' := by
      rintro x rfl
      exact hx x (by simp [exprs])
    have halone : ∀ t ∈ schema.relations, t.name ∈ [q] → t.name = q :=
      fun t _ ht => mem_singleton.mp ht
    exact agree_follow hts hoperand path.joins (by simp) (by simp) (.cons (.refl q) .nil)
      (.inr halone) (.inr halone) hfollow hfollow'
  | .all items, hx, h, h' => by
    obtain ⟨es, s2, hes, hpure⟩ := bind_eq_ok h
    obtain ⟨es', s2', hes', hpure'⟩ := bind_eq_ok h'
    cases hpure
    cases hpure'
    exact .conjunction (agree_toSqlEach hts hx hes hes')
  | .any items, hx, h, h' => by
    obtain ⟨es, s2, hes, hpure⟩ := bind_eq_ok h
    obtain ⟨es', s2', hes', hpure'⟩ := bind_eq_ok h'
    cases hpure
    cases hpure'
    exact .disjunction (agree_toSqlEach hts hx hes hes')
  | .not c, hx, h, h' => by
    obtain ⟨x, s2, he, hpure⟩ := bind_eq_ok h
    obtain ⟨x', s2', he', hpure'⟩ := bind_eq_ok h'
    cases hpure
    cases hpure'
    rw [exprs] at hx
    exact (agree_toSqlIn hts hx he he').negate

theorem agree_toSqlEach {s s' s1 s1' : PlanState} {es es' : List Expr} (hts : ts.Match ts' schema) :
    ∀ {cs : List Condition}, (∀ x ∈ exprsEach cs, x.Steady ops ts ts') →
      toSqlEach earlier.context schema r q [q] cs s = .ok (es, s1) →
      toSqlEach earlier.context schema r q [q] cs s' = .ok (es', s1') →
      Forall₂ (Expr.Agree ops ts ts' q q) es es'
  | [], _, h, h' => by
    cases h
    cases h'
    exact .nil
  | c :: rest, hx, h, h' => by
    obtain ⟨e, es2, s2, he, hes, rfl⟩ := toSqlEach_cons h
    obtain ⟨e', es2', s2', he', hes', rfl⟩ := toSqlEach_cons h'
    rw [exprsEach, forall_mem_append] at hx
    exact .cons (agree_toSqlIn hts hx.1 he he') (agree_toSqlEach hts hx.2 hes hes')

end

end Conditions

end StagedSql
