import StagedSql.Proofs.Condition.Meaning

/-!
Conditions taken apart at AND.

It does not matter how lists of conditions to be met are nested or merged: what counts are the
conjuncts in order. Errors are part of this: a conjunction fails where one of its members does.
-/

namespace StagedSql

open List Plan Condition StagedSql.Expr

variable {cs : List Condition} {schema : Schema}

/-! ### Truth values -/

/-- The truth value of an expression where some rows are bound. There is none where the database
reports an error. -/
def Expr.truth (ops : Operators) (ts : Tables) (env : Env) (e : Expr) : Option (Option Bool) :=
  (e.eval ops ts env none).bind Value.truth?

/-- Two truth values that there may be, joined. -/
def joinTruths (f : Option Bool → Option Bool → Option Bool) (a b : Option (Option Bool)) :
    Option (Option Bool) :=
  a.bind fun x => b.map (f x)

/-- All truth values of a list. -/
def allTrue (truths : List (Option (Option Bool))) : Option (Option Bool) :=
  truths.foldr (joinTruths bothTrue) (some (some true))

/-- One of the truth values of a list. -/
def anyTrue (truths : List (Option (Option Bool))) : Option (Option Bool) :=
  truths.foldr (joinTruths eitherTrue) (some (some false))

lemma joinTruths_both_assoc (a b c : Option (Option Bool)) :
    joinTruths bothTrue (joinTruths bothTrue a b) c =
      joinTruths bothTrue a (joinTruths bothTrue b c) := by
  revert a b c
  decide

lemma joinTruths_either_assoc (a b c : Option (Option Bool)) :
    joinTruths eitherTrue (joinTruths eitherTrue a b) c =
      joinTruths eitherTrue a (joinTruths eitherTrue b c) := by
  revert a b c
  decide

lemma joinTruths_both_true (a : Option (Option Bool)) :
    joinTruths bothTrue a (some (some true)) = a := by
  revert a
  decide

lemma joinTruths_true_both (a : Option (Option Bool)) :
    joinTruths bothTrue (some (some true)) a = a := by
  revert a
  decide

lemma joinTruths_either_false (a : Option (Option Bool)) :
    joinTruths eitherTrue a (some (some false)) = a := by
  revert a
  decide

lemma allTrue_append (as bs : List (Option (Option Bool))) :
    allTrue (as ++ bs) = joinTruths bothTrue (allTrue as) (allTrue bs) := by
  induction as with
  | nil => exact (joinTruths_true_both _).symm
  | cons a rest ih =>
    change joinTruths bothTrue a (allTrue (rest ++ bs)) =
      joinTruths bothTrue (joinTruths bothTrue a (allTrue rest)) _
    rw [ih, joinTruths_both_assoc]

lemma allTrue_singleton (a : Option (Option Bool)) : allTrue [a] = a := joinTruths_both_true a

section Expressions

variable {ops : Operators} {ts : Tables} {env : Env}

lemma holds_eq_truth (condition : Option Expr) : holds ops ts env condition =
    ((condition.getD (.bool true)).truth ops ts env).map (· == some true) := by
  cases condition with
  | none => rfl
  | some e =>
    rw [Expr.holds, Option.getD_some, Expr.truth]
    cases e.eval ops ts env none with
    | none => rfl
    | some v => cases h : v.truth? <;> simp [h]

/-- A connective joins the truth values of its operands. -/
lemma truth_connective {op : BinaryOp} {f : Option Bool → Option Bool → Option Bool}
    (hop : ∀ v w, ops.apply op v w = do return .ofTruth (f (← v.truth?) (← w.truth?)))
    (l r : Expr) : (binary op l r).truth ops ts env =
      joinTruths f (l.truth ops ts env) (r.truth ops ts env) := by
  rw [Expr.truth, Expr.eval, Expr.truth, Expr.truth]
  cases l.eval ops ts env none with
  | none => rfl
  | some v =>
    cases r.eval ops ts env none with
    | none => cases h : v.truth? <;> simp [joinTruths]
    | some w => cases h : v.truth? <;> cases h' : w.truth? <;> simp [joinTruths, hop, h, h']

lemma truth_and (l r : Expr) : (binary .and l r).truth ops ts env =
    joinTruths bothTrue (l.truth ops ts env) (r.truth ops ts env) :=
  truth_connective (fun _ _ => rfl) l r

lemma truth_or (l r : Expr) : (binary .or l r).truth ops ts env =
    joinTruths eitherTrue (l.truth ops ts env) (r.truth ops ts env) :=
  truth_connective (fun _ _ => rfl) l r

lemma truth_negate (e : Expr) :
    e.negate.truth ops ts env = (e.truth ops ts env).map (Option.map fun b => !b) := by
  rw [Expr.truth, Expr.negate, Expr.eval, Expr.eval, Expr.truth]
  cases e.eval ops ts env none with
  | none => rfl
  | some v => cases h : v.truth? <;> simp [h]

lemma truth_grouped (e : Expr) : e.grouped.truth ops ts env = e.truth ops ts env := by
  unfold grouped
  split
  · rw [Expr.truth, Expr.eval, Expr.truth]
  · rfl

/-- Expressions joined from the left by an operator that acts on truth values. -/
lemma truth_foldl {op : BinaryOp} {f : Option Bool → Option Bool → Option Bool}
    (hop : ∀ l r : Expr, (binary op l r).truth ops ts env =
      joinTruths f (l.truth ops ts env) (r.truth ops ts env)) (es : List Expr) (e : Expr) :
    (es.foldl (fun acc x => binary op acc x) e).truth ops ts env =
      (es.map (truth ops ts env)).foldl (joinTruths f) (e.truth ops ts env) := by
  induction es generalizing e with
  | nil => rfl
  | cons x rest ih => rw [foldl_cons, ih, hop, map_cons, foldl_cons]

/-- **Expressions joined by AND.** -/
lemma truth_conjunction (es : List Expr) :
    ((conjunction? es).getD (.bool true)).truth ops ts env =
      allTrue (es.map (truth ops ts env)) := by
  cases es with
  | nil => rfl
  | cons e rest =>
    have hrest : (rest.map grouped).map (truth ops ts env) = rest.map (truth ops ts env) := by
      rw [map_map]
      exact map_congr_left fun x _ => truth_grouped x
    change ((rest.map grouped).foldl (fun acc x => binary .and acc x)
      e.grouped).truth ops ts env = _
    rw [truth_foldl truth_and, hrest, truth_grouped,
      foldl_eq_foldr_unit joinTruths_both_assoc joinTruths_both_true]
    rfl

/-- **Expressions joined by OR.** -/
lemma truth_disjunction (es : List Expr) :
    ((disjunction? es).getD (.bool false)).truth ops ts env =
      anyTrue (es.map (truth ops ts env)) := by
  have hparen : ∀ e : Expr, (paren e).truth ops ts env = e.truth ops ts env := by
    intro e
    rw [Expr.truth, Expr.eval, Expr.truth]
  rcases es with _ | ⟨e, _ | ⟨x, rest⟩⟩
  · rfl
  · exact (joinTruths_either_false _).symm
  · change (paren ((x :: rest).foldl (fun acc y => binary .or acc y) e)).truth ops ts env = _
    rw [hparen, truth_foldl truth_or,
      foldl_eq_foldr_unit joinTruths_either_assoc joinTruths_either_false]
    rfl

lemma truth_andCondition (condition : Option Expr) (e : Expr) :
    ((andCondition condition e).getD (.bool true)).truth ops ts env =
      joinTruths bothTrue ((condition.getD (.bool true)).truth ops ts env)
        (e.truth ops ts env) := by
  rw [andCondition, truth_conjunction, map_append, allTrue_append]
  congr 1
  · cases condition with
    | none => rfl
    | some x => exact allTrue_singleton _
  · exact allTrue_singleton _

lemma truth_andConditions (es : List Expr) (condition : Option Expr) :
    ((es.foldl andCondition condition).getD (.bool true)).truth ops ts env =
      joinTruths bothTrue ((condition.getD (.bool true)).truth ops ts env)
        (allTrue (es.map (truth ops ts env))) := by
  induction es generalizing condition with
  | nil => exact (joinTruths_both_true _).symm
  | cons e rest ih =>
    rw [foldl_cons, ih, truth_andCondition, joinTruths_both_assoc]
    rfl

end Expressions

/-! ### Sub-selects that are compared with -/

mutual

/-- **The sub-selects that a condition compares with**: those that stand for a value or a list of
values, in the condition itself and in the conditions of what it asks to exist. -/
def Expr.operands : Expr → List Statement
  | .binary _ l r => l.operands ++ r.operands
  | .not e => e.operands
  | .call _ args _ => Expr.operandsEach args
  | .cast e _ => e.operands
  | .subquery query => [query]
  | .existence _ query => query.operands
  | .inList _ e items => e.operands ++ Expr.operandsEach items
  | .inQuery _ e query => e.operands ++ [query]
  | .isNull _ e => e.operands
  | .like _ e pattern _ => e.operands ++ pattern.operands
  | .paren e => e.operands
  | _ => []

def Expr.operandsEach : List Expr → List Statement
  | [] => []
  | e :: rest => e.operands ++ Expr.operandsEach rest

/-- The sub-selects that the condition of a SELECT compares with. -/
def Statement.operands : Statement → List Statement
  | .select ⟨_, _, _, some condition, _, _, _⟩ => condition.operands
  | _ => []

end

lemma operands_grouped (e : Expr) : e.grouped.operands = e.operands := by
  unfold grouped
  split
  · simp only [operands]
  · rfl

lemma operands_foldl (op : BinaryOp) (es : List Expr) (e : Expr) :
    (es.foldl (fun acc x => binary op acc x) e).operands = e.operands ++ es.flatMap operands := by
  induction es generalizing e with
  | nil => simp
  | cons x rest ih =>
    rw [foldl_cons, ih, operands, flatMap_cons, append_assoc]

lemma operands_joined (op : BinaryOp) (es : List Expr) :
    ((joined? op es).toList.flatMap operands) = es.flatMap operands := by
  cases es with
  | nil => rfl
  | cons e rest =>
    rw [Expr.joined?, Option.toList_some, flatMap_singleton, operands_foldl, flatMap_cons]

lemma operands_conjunction (es : List Expr) :
    (conjunction? es).toList.flatMap operands = es.flatMap operands := by
  rw [conjunction?, operands_joined, flatMap_map]
  exact congrArg (List.flatMap · es) (funext operands_grouped)

lemma operands_disjunction (es : List Expr) :
    (disjunction? es).toList.flatMap operands = es.flatMap operands := by
  rcases es with _ | ⟨e, _ | ⟨x, rest⟩⟩
  · rfl
  · rfl
  · rw [← operands_joined .or (e :: x :: rest)]
    simp [Expr.disjunction?, Expr.joined?, Expr.operands]

lemma operands_getD (condition : Option Expr) (b : Bool) :
    (condition.getD (.bool b)).operands = condition.toList.flatMap operands := by
  cases condition with
  | none => simp [Expr.bool, Expr.operands]
  | some e => simp

lemma operands_andConditions (es : List Expr) (condition : Option Expr) :
    (es.foldl andCondition condition).toList.flatMap operands =
      condition.toList.flatMap operands ++ es.flatMap operands := by
  induction es generalizing condition with
  | nil => simp
  | cons e rest ih =>
    rw [foldl_cons, ih, andCondition, operands_conjunction, flatMap_append,
      flatMap_singleton, flatMap_cons, append_assoc]

/-! ### Conjuncts -/

namespace Condition

/-- The members of a condition: what a list of conditions to be met holds, and otherwise the
condition itself. -/
def conjuncts : Condition → List Condition
  | .all items => items
  | c => [c]

lemma both_conjuncts (a b : Condition) : (a.both b).conjuncts = a.conjuncts ++ b.conjuncts := by
  cases a <;> cases b <;> rfl

lemma withExisting_conjuncts (existing : Option Condition) (c : Condition) :
    (withExisting existing c).conjuncts = existing.toList.flatMap conjuncts ++ c.conjuncts := by
  cases existing with
  | none => rfl
  | some e =>
    rw [withExisting, both_conjuncts]
    simp

lemma joined?_conjuncts (cs : List Condition) :
    (joined? cs).toList.flatMap conjuncts = cs.flatMap conjuncts := by
  cases cs with
  | nil => rfl
  | cons c rest =>
    have hfold : ∀ (l : List Condition) (a : Condition),
        (l.foldl both a).conjuncts = a.conjuncts ++ l.flatMap conjuncts := by
      intro l
      induction l with
      | nil => simp
      | cons b more ih =>
        intro a
        rw [foldl_cons, ih, both_conjuncts, flatMap_cons, append_assoc]
    rw [joined?, Option.toList_some, flatMap_singleton, hfold, flatMap_cons]

lemma handlesOf_append (cs ds : List Condition) :
    handlesOf (cs ++ ds) = handlesOf cs ++ handlesOf ds := by
  induction cs with
  | nil => rw [nil_append, handlesOf, nil_append]
  | cons c rest ih => rw [cons_append, handlesOf, handlesOf, ih, append_assoc]

lemma mem_handlesOf {h : Handle} (hh : h ∈ handlesOf cs) : ∃ c ∈ cs, h ∈ c.handles := by
  induction cs with
  | nil =>
    cases hh
  | cons c rest ih =>
    rw [handlesOf, mem_append] at hh
    grind

lemma handlesOf_conjuncts (cs : List Condition) :
    handlesOf (cs.flatMap conjuncts) = handlesOf cs := by
  have hone : ∀ c : Condition, handlesOf c.conjuncts = c.handles := by
    intro c
    cases c with
    | all items => rw [conjuncts, handles]
    | _ => simp [conjuncts, handlesOf]
  induction cs with
  | nil => rfl
  | cons c rest ih => rw [flatMap_cons, handlesOf_append, hone, ih, handlesOf]

lemma joined?_eq_none : joined? cs = none ↔ cs = [] := by
  cases cs <;> simp [joined?]

end Condition

/-! ### Expressions of conjuncts -/

section Runs

variable {ctx : ConditionContext PlanState} {r : Relation} {q : String} {scope : List String}
  {c : Condition} {s s'' s' : PlanState} {es : List Expr}

lemma toSqlEach_cons (h : toSqlEach ctx schema r q scope (c :: cs) s = .ok (es, s'')) :
    ∃ e rest s', toSqlIn ctx schema r q scope c s = .ok (e, s') ∧
      toSqlEach ctx schema r q scope cs s' = .ok (rest, s'') ∧ es = e :: rest := by
  obtain ⟨e, s', he, h⟩ := bind_eq_ok h
  obtain ⟨rest, s2, hrest, h⟩ := bind_eq_ok h
  cases h
  exact ⟨e, rest, s', he, hrest, rfl⟩

lemma toSqlEach_append_run {ds : List Condition} {fs : List Expr}
    (hcs : toSqlEach ctx schema r q scope cs s = .ok (es, s'))
    (hds : toSqlEach ctx schema r q scope ds s' = .ok (fs, s'')) :
    toSqlEach ctx schema r q scope (cs ++ ds) s = .ok (es ++ fs, s'') := by
  induction cs generalizing s es with
  | nil =>
    cases hcs
    exact hds
  | cons c rest ih =>
    obtain ⟨e, es', s1, he, hes, rfl⟩ := toSqlEach_cons hcs
    rw [cons_append, toSqlEach, bind_run he, bind_run (ih hes)]
    rfl

/-- **The expression of a condition** says what the expressions of its conjuncts say together, and
compares with the same sub-selects. -/
lemma toSqlIn_conjuncts {e : Expr} (h : toSqlIn ctx schema r q scope c s = .ok (e, s')) :
    ∃ fs, toSqlEach ctx schema r q scope c.conjuncts s = .ok (fs, s') ∧
      e.operands = fs.flatMap operands ∧
      ∀ ops ts env, e.truth ops ts env = allTrue (fs.map (truth ops ts env)) := by
  have halone : ∃ fs, toSqlEach ctx schema r q scope [c] s = .ok (fs, s') ∧
      e.operands = fs.flatMap operands ∧
      ∀ ops ts env, e.truth ops ts env = allTrue (fs.map (truth ops ts env)) := by
    refine ⟨[e], ?_, by simp, fun ops ts env => (allTrue_singleton _).symm⟩
    rw [toSqlEach, bind_run h, toSqlEach]
    rfl
  cases c with
  | all items =>
    obtain ⟨fs, s1, hfs, h⟩ := bind_eq_ok h
    cases h
    refine ⟨fs, hfs, ?_, fun ops ts env => truth_conjunction fs⟩
    rw [operands_getD, operands_conjunction]
  | lookup key operand => exact halone
  | any items => exact halone
  | not c => exact halone

/-- The same for each of several conditions. -/
lemma toSqlEach_conjuncts (h : toSqlEach ctx schema r q scope cs s = .ok (es, s')) :
    ∃ fs, toSqlEach ctx schema r q scope (cs.flatMap conjuncts) s = .ok (fs, s') ∧
      es.flatMap operands = fs.flatMap operands ∧
      ∀ ops ts env, allTrue (es.map (truth ops ts env)) =
        allTrue (fs.map (truth ops ts env)) := by
  induction cs generalizing s es with
  | nil => exact ⟨es, h, rfl, fun _ _ _ => rfl⟩
  | cons c rest ih =>
    obtain ⟨e, es', s1, he, hes, rfl⟩ := toSqlEach_cons h
    obtain ⟨fs1, hfs1, hop1, htruth1⟩ := toSqlIn_conjuncts he
    obtain ⟨fs2, hfs2, hop2, htruth2⟩ := ih hes
    refine ⟨fs1 ++ fs2, toSqlEach_append_run hfs1 hfs2, ?_, fun ops ts env => ?_⟩
    · rw [flatMap_cons, hop1, hop2, flatMap_append]
    · rw [map_append, allTrue_append, ← htruth1, ← htruth2]
      rfl

end Runs

/-! ### Contexts -/

section Contexts

variable {earlier earlier' : Earlier}

lemma follow_congr {key : String} {path : LookupKey} {operand : Operand}
    (hsub : ∀ h ∈ operandHandles operand, earlier.subselect h = earlier'.subselect h)
    (links : List String) : ∀ (r : Relation) (q : String) (scope : List String),
      follow earlier.context schema key path operand links r q scope =
        follow earlier'.context schema key path operand links r q scope := by
  induction links with
  | nil =>
    intro r q scope
    rw [follow, follow, leaf, leaf]
    cases operand with
    | query h =>
      have hsame : earlier.context.subselect h = earlier'.context.subselect h :=
        hsub h (.head _)
      simp only [hsame]
    | value v => rfl
    | expr e => rfl
  | cons segment rest ih =>
    intro r q scope
    simp only [follow, ih]
    rfl

mutual

/-- **A condition depends on the sub-selects that it compares with** and on nothing else of the
nodes. -/
theorem toSqlIn_congr {r : Relation} {q : String} {scope : List String} : ∀ {c : Condition},
    (∀ h ∈ c.handles, earlier.subselect h = earlier'.subselect h) →
      toSqlIn earlier.context schema r q scope c = toSqlIn earlier'.context schema r q scope c
  | .lookup key operand, hsub => by
    simp only [toSqlIn, lookupToSql, follow_congr hsub]
  | .all items, hsub => by
    simp only [toSqlIn, toSqlEach_congr hsub]
  | .any items, hsub => by
    simp only [toSqlIn, toSqlEach_congr hsub]
  | .not c, hsub => by
    rw [handles] at hsub
    simp only [toSqlIn, toSqlIn_congr hsub]

theorem toSqlEach_congr {r : Relation} {q : String} {scope : List String} :
    ∀ {cs : List Condition},
    (∀ h ∈ handlesOf cs, earlier.subselect h = earlier'.subselect h) →
      toSqlEach earlier.context schema r q scope cs = toSqlEach earlier'.context schema r q scope cs
  | [], _ => by rw [toSqlEach, toSqlEach]
  | c :: rest, hsub => by
    rw [handlesOf, forall_mem_append] at hsub
    simp only [toSqlEach, toSqlIn_congr hsub.1, toSqlEach_congr hsub.2]

end

end Contexts

end StagedSql
