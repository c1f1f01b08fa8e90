import StagedSql.Proofs.Condition.Meaning
import StagedSql.Proofs.Plan.ConditionLaws
import StagedSql.Proofs.Sql.Phrases

/-!
Conditions are read back as they were made.
-/

namespace StagedSql

open List StagedSql.Expr StagedSql.Tree

variable {e : Expr} {n : Nat} {k : Keyword} {es : List Expr}

/-! ### What expressions say -/

/-- How strongly the connective at the top of an expression binds. -/
def Expr.strength : Expr → Nat
  | .binary .or _ _ => 1
  | .binary .and _ _ => 2
  | _ => 3

def Expr.trees (e : Expr) : List Tree := StagedSql.trees e.tokens

/-- What a column may be compared with: another column, a value or a sub-select. -/
def Expr.term? : Expr → Option Term
  | .column (some table) name => some (.column table name)
  | .param v => some (.param v)
  | .subquery query => some (.query (StagedSql.trees query.tokens))
  | _ => none

def Expr.value? : Expr → Option Value
  | .param v => some v
  | _ => none

/-- **A comparison of a column**, or a truth value. Nothing is among no values. -/
def Expr.comparison? : Expr → Option Factor
  | .literal (.bool b) => some (.truth b)
  | .binary op (.column (some table) name) r =>
    r.term?.map fun operand => .comparison table name (.operator op operand)
  | .isNull negated (.column (some table) name) => some (.comparison table name (.null negated))
  | .inList negated _ [] => some (.truth negated)
  | .inList negated (.column (some table) name) items =>
    (items.mapM value?).map fun values => .comparison table name (.among negated values)
  | .inQuery negated (.column (some table) name) query =>
    some (.comparison table name (.amongRows negated (StagedSql.trees query.tokens)))
  | .like negated (.column (some table) name) (.param v) escape =>
    some (.comparison table name (.like negated v (String.singleton escape)))
  | _ => none

/-- **What an expression says.** Parentheses are left out, and chains of AND and of OR are flat.
Nothing is said by an expression that is no condition. -/
def Expr.formula : Expr → Formula
  | .binary .and l r => .all [l.formula, r.formula]
  | .binary .or l r => l.formula ++ r.formula
  | .not e => [[.not e.formula]]
  | .paren e => e.formula
  | .existence negated (.select ⟨[⟨.literal (.int 1), none⟩], some (.table table label), [], some c,
      [], none, none⟩) =>
    if negated then [[.not [[.found table label c.formula]]]]
    else [[.found table label c.formula]]
  | e => .ofFactor e.comparison?

/-- A comparison, or a truth value. -/
structure Expr.IsComparison (e : Expr) : Prop where
  read : ∃ f, readComparison e.trees = some f ∧ e.formula = [[f]]
  strength : e.strength = 3
  first : ∃ t rest, e.trees = .token t :: rest ∧ t ≠ .keyword .NOT ∧ t ≠ .keyword .EXISTS
  words : ∀ k, .token (.keyword k) ∈ e.trees → k.strength = 3

/-- **Parentheses stand where they are needed**: an OR does not stand bare beside an AND, and no
connective stands bare behind a NOT. -/
inductive Expr.Grouped : Expr → Prop
  | comparison {e : Expr} (h : e.IsComparison) : Grouped e
  | and {l r : Expr} (hl : Grouped l) (hr : Grouped r) (hls : 2 ≤ l.strength)
      (hrs : 2 ≤ r.strength) : Grouped (.binary .and l r)
  | or {l r : Expr} (hl : Grouped l) (hr : Grouped r) : Grouped (.binary .or l r)
  | not {e : Expr} (h : Grouped e) (hs : 3 ≤ e.strength) : Grouped (.not e)
  | paren {e : Expr} (h : Grouped e) : Grouped (.paren e)
  | found {table : String} {label : Option String} {c : Expr} (h : Grouped c) :
      Grouped (.existence false (.select
        ⟨[⟨.int 1, none⟩], some (.table table label), [], some c, [], none, none⟩))

/-! ### Trees of expressions -/

section Trees

variable {l r : Expr}

lemma Expr.nests (e : Expr) : Nests e.tokens e.trees := e.tokens_phrase.nests_trees

lemma nests_operator (op : BinaryOp) : Nests [.space, op.token, .space] [.token op.token] := by
  have hspace : op.token ≠ .space := by cases op <;> simp [BinaryOp.token]
  exact nests_space.append ((nests_token op.isParen_token hspace).append nests_space)

lemma Expr.trees_binary (op : BinaryOp) (l r : Expr) :
    (binary op l r).trees = l.trees ++ .token op.token :: r.trees := by
  rw [trees, tokens, append_assoc]
  exact (l.nests.append ((nests_operator op).append r.nests)).trees_eq

lemma Expr.trees_not (e : Expr) : (not e).trees = .token (.keyword .NOT) :: e.trees :=
  ((nests_word .NOT).append e.nests).trees_eq

lemma Expr.trees_paren (e : Expr) : (paren e).trees = [.group e.trees] :=
  e.nests.inParens.trees_eq

lemma Select.tokens_where (projection : List SelectItem) (source : Option FromItem)
    (joins : List Join) (c : Expr) :
    Select.tokens ⟨projection, source, joins, some c, [], none, none⟩ =
      Select.tokens ⟨projection, source, joins, none, [], none, none⟩ ++
        (innerWord .WHERE ++ c.tokens) := by
  simp [Select.tokens, clause, OrderItem.tokenLists, listClause, countTokens]

/-- The trees of a row that is looked for, in front of its condition. -/
def foundTrees (table : String) (label : Option String) : List Tree :=
  [.token (.keyword .SELECT), .token (.int 1), .token (.keyword .FROM), .token (.ident table)] ++
    label.toList.flatMap fun label => [.token (.keyword .AS), .token (.ident label)]

lemma nests_foundTrees (table : String) (label : Option String) :
    Nests (Select.tokens ⟨[⟨.int 1, none⟩], some (.table table label), [], none, [], none, none⟩)
      (foundTrees table label) := by
  intro around here rest
  cases label <;>
    simp [foundTrees, Select.tokens, SelectItem.tokenLists, SelectItem.tokens, commaSeparated,
      tokensBetween, labelTokens, int, tokens, Literal.token, FromItem.clause, FromItem.tokens,
      Join.clauses, clause, OrderItem.tokenLists, listClause, countTokens, word, innerWord,
      nestFrom]

lemma readFound_foundTrees (table : String) (label : Option String) :
    readFound (foundTrees table label) = some (table, label) := by
  cases label <;> rfl

lemma foundTrees_words (table : String) (label : Option String) :
    ∀ p ∈ foundTrees table label, p.isKeyword .WHERE = false := by
  cases label <;> simp [foundTrees, isKeyword]

lemma Expr.trees_found (table : String) (label : Option String) (c : Expr) :
    (existence false (.select
      ⟨[⟨.int 1, none⟩], some (.table table label), [], some c, [], none, none⟩)).trees =
      [.token (.keyword .EXISTS),
        .group (foundTrees table label ++ .token (.keyword .WHERE) :: c.trees)] := by
  have hinside := (nests_foundTrees table label).append
    ((nests_innerWord .WHERE).append c.nests)
  rw [← Select.tokens_where] at hinside
  exact ((nests_word .EXISTS).append hinside.inParens).trees_eq

end Trees

/-! ### Reading -/

lemma Expr.strength_pos (e : Expr) : 1 ≤ e.strength := by
  fun_cases strength e <;> simp

/-- **No keyword at the top of an expression binds less** than its connective. -/
lemma Expr.Grouped.strength_le (h : e.Grouped) :
    ∀ k, .token (.keyword k) ∈ e.trees → e.strength ≤ k.strength := by
  induction h with
  | comparison h => exact fun k hk => by rw [h.strength, h.words k hk]
  | and _ _ hls hrs hl hr =>
    intro k hk
    rw [trees_binary, mem_append, mem_cons] at hk
    rcases hk with hk | hk | hk
    · exact hls.trans (hl k hk)
    · cases hk
      exact le_rfl
    · exact hrs.trans (hr k hk)
  | @or l r _ _ hl hr =>
    intro k hk
    rw [trees_binary, mem_append, mem_cons] at hk
    rcases hk with hk | hk | hk
    · exact l.strength_pos.trans (hl k hk)
    · cases hk
      exact le_rfl
    · exact r.strength_pos.trans (hr k hk)
  | not _ hs h =>
    intro k hk
    rw [trees_not, mem_cons] at hk
    rcases hk with hk | hk
    · cases hk
      exact le_rfl
    · exact hs.trans (h k hk)
  | paren _ _ =>
    intro k hk
    simp [trees_paren] at hk
  | found _ _ =>
    intro k hk
    rw [trees_found] at hk
    simp only [mem_cons, not_mem_nil, token.injEq, Token.keyword.injEq,
      reduceCtorEq, or_false] at hk
    rw [hk]
    exact le_rfl

/-- Keywords that bind less than an expression do not stand at its top. -/
lemma Expr.Grouped.without (h : e.Grouped) (hk : k.strength < e.strength) :
    ∀ p ∈ e.trees, p.isKeyword k = false := by
  intro p hp
  fun_cases isKeyword k p with
  | case1 k' =>
    rw [decide_eq_false_iff_not]
    rintro rfl
    exact absurd (h.strength_le _ hp) (Nat.not_le.mpr hk)
  | case2 => rfl

/-- **An expression with parentheses where they are needed is read back.** The induction is on the
expression; each reading ends where the next connective binds less. -/
lemma Expr.Grouped.read (h : e.Grouped) (hn : depthEach e.trees ≤ n) :
    readTrees (n + 1) e.trees = e.formula := by
  induction h generalizing n with
  | @comparison e h =>
    have hgrouped := Expr.Grouped.comparison h
    obtain ⟨t, rest, hfirst, hnot, hexists⟩ := h.first
    obtain ⟨f, hread, hformula⟩ := h.read
    rw [hfirst] at hread
    rw [readTrees_factor (hgrouped.without (by simp [h.strength, Keyword.strength]))
      (hgrouped.without (by simp [h.strength, Keyword.strength])), hformula, hfirst,
      readFactor_token _ hnot hexists, hread]
    rfl
  | @and l r hgl hgr hls hrs hl hr =>
    rw [trees_binary, depthEach_append, depthEach] at hn
    rw [trees_binary, formula, ← hl (n := n) (by omega), ← hr (n := n) (by omega)]
    exact readTrees_and (hgl.without hls) (hgr.without hrs)
  | or _ _ hl hr =>
    rw [trees_binary, depthEach_append, depthEach] at hn
    rw [trees_binary, formula, ← hl (n := n) (by omega), ← hr (n := n) (by omega)]
    exact readTrees_or
  | @not e hg hs h =>
    have hor := hg.without (k := .OR) (Nat.lt_of_lt_of_le (by decide) hs)
    have hand := hg.without (k := .AND) (Nat.lt_of_lt_of_le (by decide) hs)
    rw [trees_not, depthEach] at hn
    rw [trees_not, readTrees_factor (forall_mem_cons.mpr ⟨rfl, hor⟩)
      (forall_mem_cons.mpr ⟨rfl, hand⟩), readFactor, ← readTrees_factor hor hand,
      h (by omega), formula]
  | @paren e hg h =>
    rw [trees_paren, depthEach, depth, depthEach] at hn
    obtain ⟨m, rfl⟩ : ∃ m, n = m + 1 := ⟨n - 1, by omega⟩
    rw [trees_paren, formula, readTrees_factor (by simp [isKeyword])
      (by simp [isKeyword]), readFactor, h (by omega)]
  | @found table label c hg h =>
    rw [trees_found, depthEach, depthEach, depth, depth,
      depthEach_append, depthEach, depthEach] at hn
    obtain ⟨m, rfl⟩ : ∃ m, n = m + 1 := ⟨n - 1, by omega⟩
    rw [trees_found, readTrees_factor (by simp [isKeyword]) (by simp [isKeyword]),
      readFactor_found _ (foundTrees_words table label) (readFound_foundTrees table label),
      h (by omega)]
    rfl

/-! ### Comparisons -/

section Comparisons

variable {q field key : String} {negated : Bool} {ps : List Tree} {op : Operator}

lemma Expr.IsComparison.of_truth (b : Bool)
    (htokens : e.tokens = [.keyword (if b then .TRUE else .FALSE)]) (hstrength : e.strength = 3)
    (hformula : e.formula = [[.truth b]]) : e.IsComparison := by
  have htrees : e.trees = [.token (.keyword (if b then .TRUE else .FALSE))] := by
    rw [trees, htokens]
    exact (nests_token rfl (by simp)).trees_eq
  refine ⟨⟨_, ?_, hformula⟩, hstrength, ⟨_, _, htrees, ?_, ?_⟩, fun k hk => ?_⟩
  · rw [htrees]
    cases b <;> rfl
  · cases b <;> simp
  · cases b <;> simp
  · simp only [htrees, mem_singleton, token.injEq, Token.keyword.injEq] at hk
    rw [hk]
    cases b <;> rfl

lemma bool_isComparison (b : Bool) : (bool b).IsComparison := by
  cases b with
  | false => exact .of_truth false rfl rfl rfl
  | true => exact .of_truth true rfl rfl rfl

lemma Expr.IsComparison.of_column (test : Test) {rest : List Token}
    (htokens : e.tokens = (of q field).tokens ++ rest) (hrest : Nests rest ps)
    (hread : readTest ps = some test)
    (hwords : ∀ k, .token (.keyword k) ∈ ps → k.strength = 3) (hstrength : e.strength = 3)
    (hformula : e.formula = [[.comparison q field test]]) : e.IsComparison := by
  have htrees : e.trees =
      [.token (.ident q), .token (.symbol .dot), .token (.ident field)] ++ ps := by
    rw [trees, htokens]
    exact ((of q field).nests.append hrest).trees_eq
  refine ⟨⟨_, ?_, hformula⟩, hstrength, ⟨_, _, htrees, by simp, by simp⟩, fun k hk => ?_⟩
  · rw [htrees]
    exact congrArg (Option.map (Factor.comparison q field)) hread
  · rw [htrees] at hk
    exact hwords k (by simpa using hk)

/-- **A comparison by an operator** is read back with its operand. -/
lemma binary_isComparison {op : BinaryOp} {sign : Symbol} {r : Expr} {operand : Term}
    (hsign : op.token = .symbol sign) (hop : (Token.symbol sign).operator? = some op)
    (hterm : r.term? = some operand) (hread : readTerm r.trees = some operand)
    (hr : ∀ k, .token (.keyword k) ∈ r.trees → k.strength = 3) :
    (binary op (.of q field) r).IsComparison := by
  have hformula : (binary op (.of q field) r).strength = 3 ∧
      (binary op (.of q field) r).formula =
        .ofFactor (r.term?.map fun operand => .comparison q field (.operator op operand)) := by
    cases op <;> first | exact ⟨rfl, rfl⟩ | cases hsign
  refine .of_column (.operator op operand) (by rw [tokens, append_assoc])
    ((nests_operator op).append r.nests) ?_ ?_ hformula.1 ?_
  · rw [hsign, singleton_append, readTest, hop, hread]
    rfl
  · rw [hsign]
    simpa using hr
  · rw [hformula.2, hterm]
    rfl

lemma Expr.IsComparison.of_negated (test : Test) {ts : List Token}
    (htokens : e.tokens = (of q field).tokens ++ negationTokens negated ++ innerWord k ++ ts)
    (hk : k = .IN ∨ k = .LIKE) (hts : Nests ts ps)
    (hread : readMatch negated (.token (.keyword k) :: ps) = some test)
    (hwords : ∀ k, .token (.keyword k) ∈ ps → k.strength = 3) (hstrength : e.strength = 3)
    (hformula : e.formula = [[.comparison q field test]]) : e.IsComparison := by
  have hstrong : k.strength = 3 := by rcases hk with rfl | rfl <;> rfl
  cases negated with
  | false =>
    refine .of_column test htokens ((nests_innerWord k).append hts) ?_ ?_ hstrength hformula
    · rcases hk with rfl | rfl <;> exact hread
    · simpa [hstrong] using hwords
  | true =>
    have hnot : Keyword.NOT.strength = 3 := rfl
    refine .of_column test htokens ((nests_space.append (nests_token rfl (by simp))).append
      ((nests_innerWord k).append hts)) hread ?_ hstrength hformula
    simpa [hstrong, hnot] using hwords

lemma isNull_isComparison : (isNull negated (.of q field)).IsComparison := by
  refine .of_column (.null negated) rfl (nests_space.append (nests_token rfl (by simp))) ?_ ?_ rfl
    rfl
  · cases negated <;> rfl
  · cases negated <;> simp [Keyword.strength]

/-- Values with commas between them are read back. -/
lemma readItems_params (v : Value) (values : List Value) : ∃ ps,
    Nests (commaSeparated (tokenLists ((v :: values).map .param))) ps ∧
      readItems ps = some (v :: values) := by
  have hparam : ∀ v : Value, Nests [.param v] [.token (.param v)] :=
    fun v => nests_token rfl (by simp)
  induction values generalizing v with
  | nil => exact ⟨_, hparam v, rfl⟩
  | cons w rest ih =>
    obtain ⟨ps, hps, hread⟩ := ih w
    have hcomma : Nests [.symbol .comma, .space] [.token (.symbol .comma)] :=
      (nests_token rfl (by simp)).append nests_space
    refine ⟨_, ((hparam v).append hcomma).append hps, ?_⟩
    exact congrArg (Option.map (v :: ·)) hread

lemma mapM_value? (values : List Value) : (values.map param).mapM value? = some values := by
  induction values with
  | nil => rfl
  | cons v rest ih => simp [value?, ih]

lemma inList_isComparison (values : List Value) :
    (inList negated (.of q field) (values.map .param)).IsComparison := by
  cases values with
  | nil => exact .of_truth negated (by cases negated <;> rfl) rfl rfl
  | cons v values =>
    obtain ⟨ps, hps, hread⟩ := readItems_params v values
    refine .of_negated (k := .IN) (.among negated (v :: values)) rfl (.inl rfl) hps.inParens ?_
      (by simp) rfl ?_
    · simp [readMatch, hread]
    · change Formula.ofFactor (((v :: values).map param).mapM value? |>.map _) = _
      rw [mapM_value?]
      rfl

lemma inQuery_isComparison (s : Select) :
    (inQuery negated (.of q field) (.select s)).IsComparison := by
  obtain ⟨ts, hts, hphrase⟩ := s.tokens_phrase
  have hnests : Nests s.tokens (.token (.keyword .SELECT) :: trees ts) :=
    hts ▸ (nests_word .SELECT).append hphrase.nests_trees
  refine .of_negated (k := .IN) (.amongRows negated (trees s.tokens)) rfl (.inl rfl)
    hnests.inParens ?_ (by simp) rfl rfl
  rw [hnests.trees_eq]
  rfl

lemma like_isComparison (v : Value) (escape : Char) :
    (like negated (.of q field) (.param v) escape).IsComparison := by
  have hpattern := ((nests_token (t := .param v) rfl (by simp)).append
    (nests_innerWord .ESCAPE)).append
      (nests_token (t := .string (String.singleton escape)) rfl (by simp))
  have htokens : (like negated (.of q field) (.param v) escape).tokens =
      (of q field).tokens ++ negationTokens negated ++ innerWord .LIKE ++
        ([.param v] ++ innerWord .ESCAPE ++ [.string (String.singleton escape)]) := by
    simp only [tokens, append_assoc]
  exact .of_negated _ htokens (.inr rfl) hpattern rfl (by simp [Keyword.strength]) rfl rfl

lemma param_isComparison {op : BinaryOp} {sign : Symbol} (v : Value)
    (hsign : op.token = .symbol sign) (hop : (Token.symbol sign).operator? = some op) :
    (binary op (.of q field) (.param v)).IsComparison :=
  binary_isComparison hsign hop rfl rfl (by tauto)

lemma compareValue_isComparison {v : Value}
    (h : compareValue key (.of q field) op v = .ok e) : e.IsComparison := by
  cases op <;> cases v <;> simp only [compareValue, Except.ok.injEq, reduceCtorEq] at h <;>
    subst h <;>
    first
      | exact param_isComparison _ rfl rfl
      | exact isNull_isComparison
      | exact inList_isComparison _
      | exact like_isComparison _ _

lemma compareQuery_isComparison {s : Select}
    (h : compareQuery key (.of q field) op (.select s) = .ok e) : e.IsComparison := by
  have htrees : (subquery (.select s)).trees = [.group (trees s.tokens)] :=
    (Statement.select s).tokens_phrase.nests_trees.inParens.trees_eq
  cases op <;> simp only [compareQuery, Except.ok.injEq, reduceCtorEq] at h <;> subst h <;>
    first
      | exact binary_isComparison rfl rfl rfl (by rw [htrees]; rfl) (by simp [htrees])
      | exact inQuery_isComparison _

lemma link_isComparison (q field q' field' : String) :
    (binary .eq (.of q field) (.of q' field')).IsComparison := by
  have htrees : (of q' field').trees =
      [.token (.ident q'), .token (.symbol .dot), .token (.ident field')] := rfl
  exact binary_isComparison rfl rfl rfl rfl (by simp [htrees])

end Comparisons

/-! ### Connectives -/

section Connectives

variable {x : Expr}

/-- A bare OR is put into parentheses, which does not change what it says. -/
lemma Expr.Grouped.grouped (h : e.Grouped) :
    e.grouped.Grouped ∧ 2 ≤ e.grouped.strength ∧ e.grouped.formula = e.formula := by
  fun_cases Expr.grouped e with
  | case1 l r => exact ⟨.paren h, Nat.le_succ 2, rfl⟩
  | case2 e hor =>
    refine ⟨h, ?_, rfl⟩
    fun_cases strength e with
    | case1 l r => exact (hor l r rfl).elim
    | case2 => exact Nat.le_refl 2
    | case3 => exact Nat.le_succ 2

/-- **A conjunction** says all that its members say. -/
lemma Expr.Grouped.conjunction (hes : ∀ e ∈ es, e.Grouped) (h : conjunction? es = some x) :
    x.Grouped ∧ 2 ≤ x.strength ∧ x.formula = Formula.all (es.map formula) := by
  cases es with
  | nil => cases h
  | cons e rest =>
    obtain ⟨he, hrest⟩ := forall_mem_cons.mp hes
    cases h
    clear hes
    rw [map_cons, foldl_map]
    induction rest using List.reverseRecOn with
    | nil => exact he.grouped
    | append_singleton rest y ih =>
      obtain ⟨hrest, hy⟩ := forall_mem_append.mp hrest
      obtain ⟨hgrouped, hstrength, hformula⟩ := ih hrest
      obtain ⟨hyg, hys, hyf⟩ := (hy y (by simp)).grouped
      rw [foldl_append]
      refine ⟨.and hgrouped hyg hstrength hys, Nat.le_refl 2, ?_⟩
      rw [foldl_cons, foldl_nil, formula, hformula, hyf, map_append,
        ← cons_append, Formula.all_append (by simp) (by simp)]
      rfl

lemma Expr.Grouped.disjunction (hes : ∀ e ∈ es, e.Grouped) (h : disjunction? es = some x) :
    x.Grouped := by
  rw [disjunction?.eq_def] at h
  split at h
  · cases h
    exact hes _ (by simp)
  · obtain ⟨y, hy, rfl⟩ := Option.map_eq_some_iff.mp h
    refine .paren ?_
    cases es with
    | nil => cases hy
    | cons e rest =>
      obtain ⟨he, hrest⟩ := forall_mem_cons.mp hes
      cases hy
      exact List.foldlRecOn rest _ he fun y hy z hz => .or hy (hrest z hz)

end Connectives

/-! ### Conditions -/

section Conditions

variable {g : Graph}

lemma existsRow_grouped (table name : String) {link inner : Expr} (hlink : link.IsComparison)
    (hinner : inner.Grouped) :
    (Condition.existsRow (tableItem table name) link inner).Grouped := by
  obtain ⟨c, hc⟩ : ∃ c, conjunction? [link.grouped, inner] = some c := ⟨_, rfl⟩
  have hboth : ∀ e ∈ [link.grouped, inner], e.Grouped := by
    simp [(Expr.Grouped.comparison hlink).grouped.1, hinner]
  have hgrouped := (Expr.Grouped.conjunction hboth hc).1
  cases hc
  exact .found hgrouped

lemma linkTo_isComparison (c : Column) (owner : Relation) (ownerQualifier : String)
    (related : Relation) (qualifier : String) :
    (Condition.linkTo c owner ownerQualifier related qualifier).IsComparison := by
  rw [Condition.linkTo]
  split <;> exact link_isComparison _ _ _ _

lemma subselect_select (g : Graph) (h : Handle) (s : PlanState) :
    Plan.Ensures (g.planner.subselect h) s fun query _ => ∃ select, query = .select select := by
  obtain ⟨id, schema, nodes⟩ := g
  induction nodes with
  | nil => exact .of_throw
  | cons node rest ih =>
    change Plan.Ensures (if h = Graph.nextHandle ⟨id, schema, rest⟩ then _ else _) s _
    split
    · refine .bind_any fun reading s1 => ?_
      have hscan : ∀ r s1, Plan.Ensures (do
          let scan ← scanReading schema (Earlier.ofNodes id schema rest) r []
          return Statement.select scan.select) s1 fun query _ => ∃ select, query = .select select :=
        fun r s1 => .bind_any fun scan _ => .of_pure ⟨scan.select, rfl⟩
      split
      · refine .bind_any fun relation s2 => ?_
        cases relation with
        | none => exact hscan reading s2
        | some id => exact .bind_any fun r s3 => hscan _ s3
      · exact hscan reading s1
    · exact ih

/-- **Conditions** have parentheses where they are needed. -/
lemma grouped_makes : g.planner.Makes (fun _ => False) (fun _ => True) Expr.Grouped where
  value h := .comparison (compareValue_isComparison h)
  expr hx := hx.elim
  query _ := (subselect_select g _ _).mono fun _ _ hquery _ h => by
    obtain ⟨select, rfl⟩ := hquery
    exact .comparison (compareQuery_isComparison h)
  link h := existsRow_grouped _ _ (linkTo_isComparison _ _ _ _ _) h
  all {es} hes := by
    cases h : conjunction? es with
    | none => exact .comparison (bool_isComparison true)
    | some x => exact (Expr.Grouped.conjunction hes h).1
  any {es} hes := by
    cases h : disjunction? es with
    | none => exact .comparison (bool_isComparison false)
    | some x => exact Expr.Grouped.disjunction hes h
  not h := .not (.paren h) le_rfl

end Conditions

/-! ### Clauses -/

section Clauses

variable {us vs : List Token}

/-- What may follow a condition: another clause, or nothing. -/
def Closes (us : List Token) : Prop :=
  us = [] ∨ ∃ k ts, k.strength = 0 ∧ Phrase ts ∧ us = innerWord k ++ ts

lemma Closes.tail (h : Closes us) : Tail us := by
  rcases h with rfl | ⟨k, ts, -, hts, rfl⟩
  · exact tail_nil
  · exact hts.afterInnerWord k

lemma Closes.append (hus : Closes us) (hvs : Closes vs) : Closes (us ++ vs) := by
  rcases hus with rfl | ⟨k, ts, hk, hts, rfl⟩
  · exact hvs
  · exact .inr ⟨k, ts ++ vs, hk, hvs.tail ts hts, append_assoc _ _ _⟩

lemma closes_listClause (hk : k.strength = 0) {tss : List (List Token)}
    (h : ∀ ts ∈ tss, Phrase ts) : Closes (listClause k tss) := by
  cases tss with
  | nil => exact .inl rfl
  | cons ts tss => exact .inr ⟨k, _, hk, phrase_commaSeparated h, rfl⟩

lemma closes_countTokens (hk : k.strength = 0) (n : Option UInt64) : Closes (countTokens k n) := by
  cases n with
  | none => exact .inl rfl
  | some n => exact .inr ⟨k, _, hk, .single rfl, rfl⟩

lemma closes_returning (r : Returning) : Closes r.tokens := by
  cases r with
  | nothing => exact .inl rfl
  | all => exact .inr ⟨.RETURNING, _, rfl, .single rfl, rfl⟩
  | columns names => exact .inr ⟨.RETURNING, _, rfl, phrase_nameList names, rfl⟩

/-- A condition is read up to the end of its clause. -/
lemma Expr.Grouped.readCondition (h : e.Grouped) (hus : Closes us) :
    readCondition (e.tokens ++ us) = some e.formula := by
  have hinside : ∀ p ∈ e.trees, (!p.endsClause) = true := by
    intro p hp
    fun_cases endsClause p with
    | case1 k =>
      have hk := e.strength_pos.trans (h.strength_le k hp)
      simp [Nat.ne_of_gt hk]
    | case2 => rfl
  obtain ⟨qs, hqs, hends⟩ : ∃ qs, Nests us qs ∧ qs.takeWhile (!·.endsClause) = [] := by
    rcases hus with rfl | ⟨k, ts, hk, hts, rfl⟩
    · exact ⟨[], nests_nil, rfl⟩
    · exact ⟨_, (nests_innerWord k).append hts.nests_trees, by simp [endsClause, hk]⟩
  rw [StagedSql.readCondition, (e.nests.append hqs).nest_eq, Option.map_some,
    takeWhile_append_of_pos hinside, hends, append_nil, h.read]
  rw [depthEach_append]
  exact Nat.le_max_left _ _

lemma foldl_andCondition (hne : es ≠ []) (hes : ∀ e ∈ es, e.Grouped) :
    ∃ c, es.foldl andCondition none = some c ∧ c.Grouped ∧
      c.formula = Formula.all (es.map formula) := by
  induction es using List.reverseRecOn with
  | nil => exact (hne rfl).elim
  | append_singleton es e ih =>
    obtain ⟨hes, he⟩ := forall_mem_append.mp hes
    have he := he e (by simp)
    rw [foldl_append]
    rcases eq_or_ne es [] with rfl | hes'
    · exact ⟨_, rfl, he.grouped.1, he.grouped.2.2⟩
    · obtain ⟨c, hc, hgrouped, hformula⟩ := ih hes' hes
      obtain ⟨x, hx⟩ : ∃ x, conjunction? [c, e] = some x := ⟨_, rfl⟩
      obtain ⟨hxg, -, hxf⟩ := Expr.Grouped.conjunction (by simp [hgrouped, he]) hx
      refine ⟨x, ?_, hxg, ?_⟩
      · rwa [hc]
      · rw [hxf, map_append, Formula.all_append (by simpa using hes') (by simp), ← hformula]
        rfl

end Clauses

/-- An expression that comes of a condition, or that links two rows. -/
inductive AddedCondition (g : Graph) : Expr → Prop
  | compiled {r : Relation} {q : String} {scope : List String} {c : Condition} {e : Expr}
      {s s' : PlanState} (hc : c.NoExpr)
      (h : c.toSql g.planner.context g.schema r q scope s = .ok (e, s')) : AddedCondition g e
  | link (q field q' field' : String) :
      AddedCondition g (.binary .eq (.of q field) (.of q' field'))

/-- The text goes on from `before` with a condition that is read as `f`. -/
def GoesOnWith (before ts : List Token) (f : Formula) : Prop :=
  ∃ rest, ts = before ++ innerWord .WHERE ++ rest ∧ readCondition rest = some f

/-- **Conditions are read back as they were made**, with the column, the operator, the negation and
the operands of each comparison. This is so of one condition, and of any number of conditions and of
links between rows that are added to a statement: they are read as all of them joined by AND. -/
theorem added_conditions_are_read_back {g : Graph} {es : List Expr}
    (hes : ∀ e ∈ es, AddedCondition g e) (hne : es ≠ []) :
    (∀ e ∈ es, readCondition e.tokens = some e.formula) ∧
    (∀ s : Select, s.condition = none →
      GoesOnWith (Select.tokens { s with ordering := [], limit := none, offset := none })
        (es.foldl Select.filter s).tokens (.all (es.map Expr.formula))) ∧
    (∀ s : Update, s.condition = none →
      GoesOnWith (Update.tokens { s with returning := .nothing })
        (es.foldl Update.filter s).tokens (.all (es.map Expr.formula))) ∧
    ∀ s : Delete, s.condition = none →
      GoesOnWith (Delete.tokens { s with returning := .nothing })
        (es.foldl Delete.filter s).tokens (.all (es.map Expr.formula)) := by
  have hgrouped : ∀ e ∈ es, e.Grouped := by
    intro e he
    cases hes e he with
    | compiled hc h => exact grouped_makes.toSqlIn_of_noExpr hc _ _ h
    | link => exact .comparison (link_isComparison _ _ _ _)
  obtain ⟨c, hc, hcg, hformula⟩ := foldl_andCondition hne hgrouped
  rw [← hformula]
  refine ⟨fun e he => ?_, fun s hs => ?_, fun s hs => ?_, fun s hs => ?_⟩
  · simpa using (hgrouped e he).readCondition (.inl rfl)
  · obtain ⟨projection, source, joins, _, ordering, limit, offset⟩ := s
    cases hs
    have hfold : es.foldl Select.filter ⟨projection, source, joins, none, ordering, limit, offset⟩ =
        ⟨projection, source, joins, some c, ordering, limit, offset⟩ := by
      rw [← hc]
      exact foldl_hom (Select.mk projection source joins · ordering limit offset) fun _ _ => rfl
    have hcloses := (closes_listClause (k := .ORDER_BY) rfl
      (OrderItem.tokenLists_phrase ordering)).append ((closes_countTokens (k := .LIMIT) rfl
        limit).append (closes_countTokens (k := .OFFSET) rfl offset))
    refine ⟨_, ?_, hcg.readCondition hcloses⟩
    rw [hfold]
    simp [Select.tokens, Expr.clause, OrderItem.tokenLists, listClause, countTokens]
  · obtain ⟨table, assignments, _, returning⟩ := s
    cases hs
    have hfold : es.foldl Update.filter ⟨table, assignments, none, returning⟩ =
        ⟨table, assignments, some c, returning⟩ := by
      rw [← hc]
      exact foldl_hom (Update.mk table assignments · returning) fun _ _ => rfl
    refine ⟨_, ?_, hcg.readCondition (closes_returning returning)⟩
    rw [hfold]
    simp [Update.tokens, Expr.clause, Returning.tokens]
  · obtain ⟨table, _, returning⟩ := s
    cases hs
    have hfold : es.foldl Delete.filter ⟨table, none, returning⟩ = ⟨table, some c, returning⟩ := by
      rw [← hc]
      exact foldl_hom (Delete.mk table · returning) fun _ _ => rfl
    refine ⟨_, ?_, hcg.readCondition (closes_returning returning)⟩
    rw [hfold]
    simp [Delete.tokens, Expr.clause, Returning.tokens]

/-- A disjunction of a conjunction with a negation, beside a link, behind a DELETE. -/
theorem added_conditions_are_read_back_library :
    ∃ e s', libraryCondition.toSql Earlier.none.context library.schema libraryAuthors "author" []
        .initial = .ok (e, s') ∧
      GoesOnWith (Delete.tokens (.ofTable "author"))
        ([e, .binary .eq (.of "author" "id") (.of "book" "author")].foldl Delete.filter
          { Delete.ofTable "author" with returning := .all }).tokens
        (.all [e.formula,
          [[.comparison "author" "id" (.operator .eq (.column "book" "author"))]]]) := by
  obtain ⟨e, s', he⟩ : ∃ e s', libraryCondition.toSql Earlier.none.context library.schema
      libraryAuthors "author" [] .initial = .ok (e, s') := ⟨_, _, rfl⟩
  have hnone : libraryCondition.NoExpr := by
    simp [libraryCondition, Condition.NoExpr, Condition.NoExprEach, Operand.NoExpr]
  have hadded : ∀ x ∈ [e, .binary .eq (.of "author" "id") (.of "book" "author")],
      AddedCondition library x := by
    simp only [forall_mem_cons]
    exact ⟨.compiled hnone he, .link _ _ _ _, by simp⟩
  exact ⟨e, s', he, (added_conditions_are_read_back hadded (by simp)).2.2.2
    { Delete.ofTable "author" with returning := .all } rfl⟩

end StagedSql
