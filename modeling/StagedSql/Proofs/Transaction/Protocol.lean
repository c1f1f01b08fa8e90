import Mathlib.Data.List.Basic
import StagedSql.Transaction

/-!
The calls of a transaction.

A batch is run against a database that may refuse any call. Whatever it answers, the calls that are
made and the result keep to one protocol. Only after a commit that is refused nothing is undone.
-/

namespace StagedSql

open List

/-- The calls of a batch up to its last statement. -/
def Batch.script (b : Batch) : List Call :=
  .start :: (b.prelude.map .execute ++ b.main?.toList.map .query)

namespace Cursor

variable {k : Call} {more log' : List Call} {b : Batch} {α β : Type} {main : Rendered}
  {limit : Option Nat} {r : List Json} {x : Exchange α} {f : α → Exchange β}

/-! ### Answers to several calls -/

/-- **All calls of a list succeed** if they are made one after the other after a log. -/
def Grants (c : Cursor) (log : List Call) : List Call → Prop
  | [] => True
  | k :: rest => (∃ rows, c.answer log k = .ok rows) ∧ c.Grants (log ++ [k]) rest

/-- **The last call of a list is the first that fails**, and this is its error. -/
def Refuses (c : Cursor) (log calls : List Call) (e : Error) : Prop :=
  ∃ before k, calls = before ++ [k] ∧ c.Grants log before ∧ c.answer (log ++ before) k = .error e

/-- All calls of a batch succeed, and these are the rows of its last statement. -/
def Yields (c : Cursor) (log : List Call) (b : Batch) (rows : List Json) : Prop :=
  ∃ before main, b.script = before ++ [.query main] ∧ c.Grants log before ∧
    c.answer (log ++ before) (.query main) = .ok rows

variable {c : Cursor} {log calls : List Call} {e : Error} {rows : List Json}

lemma Grants.cons (h : c.answer log k = .ok rows) (hrest : c.Grants (log ++ [k]) calls) :
    c.Grants log (k :: calls) :=
  ⟨⟨rows, h⟩, hrest⟩

lemma Refuses.cons (h : c.answer log k = .ok rows)
    (hrest : c.Refuses (log ++ [k]) calls e) : c.Refuses log (k :: calls) e := by
  obtain ⟨before, last, rfl, hg, hlast⟩ := hrest
  refine ⟨k :: before, last, rfl, hg.cons h, ?_⟩
  rwa [append_assoc, singleton_append] at hlast

lemma grants_append :
    c.Grants log (calls ++ more) ↔ c.Grants log calls ∧ c.Grants (log ++ calls) more := by
  induction calls generalizing log with
  | nil => simp [Grants]
  | cons k rest ih =>
    rw [cons_append, Grants, Grants, ih, append_assoc, singleton_append, and_assoc]

lemma Refuses.not_grants (h : c.Refuses log calls e) : ¬ c.Grants log calls := by
  obtain ⟨before, k, rfl, -, hk⟩ := h
  rw [grants_append]
  rintro ⟨-, ⟨rows, hok⟩, -⟩
  rw [hk] at hok
  cases hok

lemma Yields.grants (h : c.Yields log b rows) : c.Grants log b.script := by
  obtain ⟨before, main, hs, hg, hmain⟩ := h
  rw [hs, grants_append]
  exact ⟨hg, ⟨rows, hmain⟩, trivial⟩

lemma Yields.unique {rows' : List Json} (h : c.Yields log b rows)
    (h' : c.Yields log b rows') : rows = rows' := by
  obtain ⟨before, main, hs, -, hmain⟩ := h
  obtain ⟨before', main', hs', -, hmain'⟩ := h'
  simp_all

/-! ### The protocol -/

/-- All calls of a batch succeed, and its rows are as they should be. -/
def Succeeds (c : Cursor) (log : List Call) (b : Batch) (fits : List Json → Prop) : Prop :=
  ∃ rows, c.Yields log b rows ∧ fits rows

/-- **The protocol of a transaction**: the calls that are made after a log, and the result, for a
batch whose rows should be as `fits` says. -/
structure Follows (c : Cursor) (b : Batch) (fits : List Json → Prop) (log calls : List Call)
    (result : Except Error (List Json)) : Prop where
  /-- An empty batch makes no call. -/
  idle : b.parts = [] → calls = [] ∧ result = .ok []
  /-- A start that is refused is the only call. -/
  unstarted : b.parts ≠ [] → ∀ e, c.answer log .start = .error e →
    calls = [.start] ∧ result = .error e
  /-- If all goes well, the last call is a commit. -/
  commit : b.parts ≠ [] → c.Succeeds log b fits → calls = b.script ++ [.commit]
  /-- Otherwise the statements are run in order, each one only if all before it succeeded, and the
  one rollback is the last call. -/
  rollback : b.parts ≠ [] → (∃ r, c.answer log .start = .ok r) → ¬ c.Succeeds log b fits →
    ∃ tried, calls = tried ++ [.rollback] ∧ [.start] <+: tried ∧ tried <+: b.script ∧
      c.Grants log tried.dropLast ∧ (tried = b.script ∨ ∃ e, c.Refuses log tried e) ∧
      Call.commit ∉ tried ∧ Call.rollback ∉ tried
  /-- An error is that of the first call that failed, which is no rollback, or it tells the number
  of rows that are too many. -/
  error : ∀ e, result = .error e →
    (∃ tried, tried <+: calls ∧ c.Refuses log tried e ∧ Call.rollback ∉ tried) ∨
      ∃ rows, c.Yields log b rows ∧ ¬ fits rows ∧ e = .multipleResults rows.length
  /-- Rows are given only after a commit that succeeded. -/
  rows : b.parts ≠ [] → ∀ rows, result = .ok rows → c.Yields log b rows ∧ fits rows ∧
    calls = b.script ++ [.commit] ∧ ∃ r, c.answer (log ++ b.script) .commit = .ok r

/-! ### Runs -/

lemma bind_run {a : α} (h : x log = (.ok a, log')) : (x >>= f) log = f a log' := by
  change (ExceptT.bindCont f (x log).1) (x log).2 = _
  rw [h]
  rfl

lemma bind_run_error (h : x log = (.error e, log')) : (x >>= f) log = (.error e, log') := by
  change (ExceptT.bindCont f (x log).1) (x log).2 = _
  rw [h]
  rfl

lemma call_run {answer : Except Error (List Json)} (h : c.answer log k = answer) :
    c.call k log = (answer, log ++ [k]) := by
  rw [call, h]

lemma discard_ok (h : c.answer log k = .ok rows) :
    (discard (c.call k) : Exchange PUnit) log = (.ok ⟨⟩, log ++ [k]) := bind_run (call_run h)

lemma discard_error (h : c.answer log k = .error e) :
    (discard (c.call k) : Exchange PUnit) log = (.error e, log ++ [k]) :=
  bind_run_error (call_run h)

/-- Statements are run until one fails. By induction on the statements. -/
lemma prelude_cases (c : Cursor) (statements : List Rendered) (log : List Call) :
    (c.Grants log (statements.map .execute) ∧
      (statements.forM fun s => discard (c.call (.execute s)) : Exchange PUnit) log =
        (.ok ⟨⟩, log ++ statements.map .execute)) ∨
    ∃ tried e, tried <+: statements.map .execute ∧ c.Refuses log tried e ∧
      (statements.forM fun s => discard (c.call (.execute s)) : Exchange PUnit) log =
        (.error e, log ++ tried) := by
  induction statements generalizing log with
  | nil => exact .inl ⟨trivial, by simp; rfl⟩
  | cons s rest ih =>
    cases h : c.answer log (.execute s) with
    | error e =>
      refine .inr ⟨[.execute s], e, by simp, ⟨[], _, rfl, trivial, by simpa using h⟩, ?_⟩
      exact bind_run_error (discard_error h)
    | ok rows =>
      have hrun := bind_run (f := fun _ => rest.forM fun s =>
        (discard (c.call (.execute s)) : Exchange PUnit)) (discard_ok h)
      rcases ih (log ++ [.execute s]) with ⟨hg, hrest⟩ | ⟨tried, e, hp, hr, hrest⟩
      · exact .inl ⟨hg.cons h, (hrun.trans hrest).trans (by simp)⟩
      · exact .inr ⟨.execute s :: tried, e, by simpa using hp, hr.cons h,
          (hrun.trans hrest).trans (by simp)⟩

/-- Whether rows are not too many. -/
def Within (limit : Option Nat) (rows : List Json) : Prop := ∀ most ∈ limit, rows.length ≤ most

/-- **The statements of a batch**: one of them fails, or the last one gives rows, which may be too
many. -/
lemma runParts_cases (c : Cursor) (prelude : List Rendered) (main : Rendered) (limit : Option Nat)
    (log : List Call) :
    (∃ rows, c.Grants log (prelude.map .execute) ∧
      c.answer (log ++ prelude.map .execute) (.query main) = .ok rows ∧
      ∃ result, c.runParts prelude main limit log =
          (result, log ++ (prelude.map .execute ++ [.query main])) ∧
        ((Within limit rows ∧ result = .ok rows) ∨
          ¬ Within limit rows ∧ result = .error (.multipleResults rows.length))) ∨
    ∃ tried e, tried <+: prelude.map .execute ++ [.query main] ∧ c.Refuses log tried e ∧
      c.runParts prelude main limit log = (.error e, log ++ tried) := by
  rcases prelude_cases c prelude log with ⟨hg, hrun⟩ | ⟨tried, e, hp, hr, hrun⟩
  · cases h : c.answer (log ++ prelude.map .execute) (.query main) with
    | error e =>
      refine .inr ⟨prelude.map .execute ++ [.query main], e, prefix_rfl, ⟨_, _, rfl, hg, h⟩, ?_⟩
      refine (bind_run hrun).trans ((bind_run_error (call_run h)).trans ?_)
      rw [append_assoc]
    | ok rows =>
      refine .inl ⟨rows, hg, rfl, ?_⟩
      rw [← append_assoc]
      cases limit with
      | none =>
        exact ⟨.ok rows, (bind_run hrun).trans (bind_run (call_run h)),
          .inl ⟨by simp [Within], rfl⟩⟩
      | some most =>
        by_cases hmost : most < rows.length
        · refine ⟨.error (.multipleResults rows.length), ?_,
            .inr ⟨by simpa [Within] using hmost, rfl⟩⟩
          exact (bind_run hrun).trans ((bind_run (call_run h)).trans (congrFun (if_pos hmost) _))
        · refine ⟨.ok rows, ?_, .inl ⟨by simpa [Within] using hmost, rfl⟩⟩
          exact (bind_run hrun).trans ((bind_run (call_run h)).trans (congrFun (if_neg hmost) _))
  · exact .inr ⟨tried, e, hp.trans (prefix_append _ _), hr, bind_run_error hrun⟩

/-- **How a transaction goes**, by the first call that is refused: the calls and the result. -/
inductive Course (c : Cursor) (b : Batch) (limit : Option Nat) (log : List Call) :
    List Call → Except Error (List Json) → Prop
  | idle (hb : b.parts = []) : Course c b limit log [] (.ok [])
  | unstarted {e : Error} (hb : b.parts ≠ []) (he : c.answer log .start = .error e) :
      Course c b limit log [.start] (.error e)
  | refused {r : List Json} {tried : List Call} {e : Error} (hb : b.parts ≠ [])
      (hs : c.answer log .start = .ok r) (hp : .start :: tried <+: b.script)
      (he : c.Refuses log (.start :: tried) e) :
      Course c b limit log (.start :: tried ++ [.rollback]) (.error e)
  | tooMany {rows : List Json} (hb : b.parts ≠ []) (hy : c.Yields log b rows)
      (hl : ¬ Within limit rows) :
      Course c b limit log (b.script ++ [.rollback]) (.error (.multipleResults rows.length))
  | done {rows : List Json} (hb : b.parts ≠ []) (hy : c.Yields log b rows)
      (hl : Within limit rows) :
      Course c b limit log (b.script ++ [.commit])
        ((c.answer (log ++ b.script) .commit).map fun _ => rows)

lemma script_eq (h : b.main? = some main) :
    b.script = .start :: (b.prelude.map .execute ++ [.query main]) := by
  rw [Batch.script, h]
  rfl

lemma transaction_of_ok (hmain : b.main? = some main) (hstart : c.answer log .start = .ok r)
    (hrun : c.runParts b.prelude main limit (log ++ [.start]) = (.ok rows, log')) :
    c.transaction b limit log = ((c.answer log' .commit).map fun _ => rows, log' ++ [.commit]) := by
  rw [transaction, hmain]
  refine (bind_run (discard_ok hstart)).trans ?_
  rw [hrun]
  cases hcommit : c.answer log' .commit with
  | error e => exact bind_run_error (discard_error hcommit)
  | ok _ => exact bind_run (discard_ok hcommit)

lemma transaction_of_error (hmain : b.main? = some main) (hstart : c.answer log .start = .ok r)
    (hrun : c.runParts b.prelude main limit (log ++ [.start]) = (.error e, log')) :
    c.transaction b limit log = (.error e, log' ++ [.rollback]) := by
  rw [transaction, hmain]
  refine (bind_run (discard_ok hstart)).trans ?_
  rw [hrun]
  rfl

/-- **Every transaction takes its course.** -/
lemma transaction_course (c : Cursor) (b : Batch) (limit : Option Nat) (log : List Call) :
    ∃ calls result, c.transaction b limit log = (result, log ++ calls) ∧
      c.Course b limit log calls result := by
  cases hmain : b.main? with
  | none =>
    refine ⟨[], .ok [], ?_, .idle (getLast?_eq_none_iff.mp hmain)⟩
    rw [transaction, hmain, append_nil]
    rfl
  | some main =>
    have hb : b.parts ≠ [] := by
      intro hb
      rw [Batch.main?, hb] at hmain
      cases hmain
    have hscript := script_eq hmain
    cases hstart : c.answer log .start with
    | error e =>
      refine ⟨_, _, ?_, .unstarted hb hstart⟩
      rw [transaction, hmain]
      exact bind_run_error (discard_error hstart)
    | ok r =>
      rcases runParts_cases c b.prelude main limit (log ++ [.start]) with
        ⟨rows, hg, hrows, result, hrun, hresult⟩ | ⟨tried, e, hp, hr, hrun⟩
      · rw [append_assoc, singleton_append] at hrows hrun
        have hyields : c.Yields log b rows := ⟨_, main, hscript, hg.cons hstart, hrows⟩
        rw [← hscript] at hrun
        rcases hresult with ⟨hl, rfl⟩ | ⟨hl, rfl⟩
        · refine ⟨_, _, ?_, .done hb hyields hl⟩
          rw [transaction_of_ok hmain hstart hrun, append_assoc]
        · refine ⟨_, _, ?_, .tooMany hb hyields hl⟩
          rw [transaction_of_error hmain hstart hrun, append_assoc]
      · refine ⟨_, _, ?_, .refused hb hstart ?_ (hr.cons hstart)⟩
        · rw [transaction_of_error hmain hstart hrun]
          simp
        · rw [hscript]
          simpa using hp

/-! ### The protocol is kept -/

lemma ends_not_mem_script (b : Batch) : Call.commit ∉ b.script ∧ Call.rollback ∉ b.script := by
  simp [Batch.script]

lemma Grants.of_prefix (h : c.Grants log more) (hp : calls <+: more) : c.Grants log calls := by
  obtain ⟨rest, rfl⟩ := hp
  exact (grants_append.mp h).1

lemma Refuses.grants_dropLast (h : c.Refuses log calls e) : c.Grants log calls.dropLast := by
  obtain ⟨before, k, rfl, hg, -⟩ := h
  rwa [dropLast_concat]

lemma Yields.not_refuses (h : c.Yields log b rows) (hp : calls <+: b.script) :
    ¬ c.Refuses log calls e :=
  fun hr => hr.not_grants (h.grants.of_prefix hp)

lemma refuses_start (h : c.answer log .start = .error e) : c.Refuses log [.start] e :=
  ⟨[], .start, rfl, trivial, by rwa [append_nil]⟩

lemma start_prefix_script (b : Batch) : [Call.start] <+: b.script := ⟨_, rfl⟩

/-- **A transaction follows the protocol**, whatever its course. -/
lemma Course.follows {result : Except Error (List Json)}
    (h : c.Course b limit log calls result) : c.Follows b (Within limit) log calls result := by
  cases h with
  | idle hb =>
    exact ⟨fun _ => ⟨rfl, rfl⟩, fun h => (h hb).elim, fun h => (h hb).elim, fun h => (h hb).elim,
      by simp, fun h => (h hb).elim⟩
  | @unstarted e hb he =>
    -- a refused start is no success, as every script begins with it
    have hno : ∀ rows, ¬ c.Yields log b rows := fun rows hy =>
      hy.not_refuses (start_prefix_script b) (refuses_start he)
    refine ⟨fun h => (hb h).elim, fun _ e' he' => ?_, ?_, ?_, ?_, by simp⟩
    · rw [he] at he'
      cases he'
      exact ⟨rfl, rfl⟩
    · rintro - ⟨rows, hy, -⟩
      exact (hno rows hy).elim
    · rintro - ⟨r, hr⟩
      rw [he] at hr
      cases hr
    · rintro _ ⟨⟩
      exact .inl ⟨[.start], prefix_rfl, refuses_start he, by simp⟩
  | @refused r tried e hb hs hp he =>
    have hmem := ends_not_mem_script b
    have htried : Call.commit ∉ .start :: tried ∧ Call.rollback ∉ .start :: tried :=
      ⟨fun h => hmem.1 (hp.subset h), fun h => hmem.2 (hp.subset h)⟩
    refine ⟨fun h => (hb h).elim, fun _ e' he' => ?_, ?_, fun _ _ _ => ?_, ?_, by simp⟩
    · rw [hs] at he'
      cases he'
    · rintro - ⟨rows, hy, -⟩
      exact (hy.not_refuses hp he).elim
    · exact ⟨_, rfl, ⟨_, rfl⟩, hp, he.grants_dropLast, .inr ⟨e, he⟩, htried⟩
    · grind
  | @tooMany rows hb hy hl =>
    refine ⟨fun h => (hb h).elim, fun _ e' he' => ?_, ?_, fun _ _ _ => ?_, ?_, by simp⟩
    · exact (hy.not_refuses (start_prefix_script b) (refuses_start he')).elim
    · rintro - ⟨rows', hy', hl'⟩
      rw [hy.unique hy'] at hl
      exact (hl hl').elim
    · exact ⟨_, rfl, start_prefix_script b, prefix_rfl,
        hy.grants.of_prefix ( dropLast_prefix _), .inl rfl, ends_not_mem_script b⟩
    · rintro _ ⟨⟩
      exact .inr ⟨rows, hy, hl, rfl⟩
  | @done rows hb hy hl =>
    have hmem := ends_not_mem_script b
    refine ⟨fun h => (hb h).elim, fun _ e' he' => ?_, fun _ _ => rfl, fun _ _ hno => ?_,
      fun e he => ?_, fun _ rows' hrows => ?_⟩
    · exact (hy.not_refuses (start_prefix_script b) (refuses_start he')).elim
    · exact (hno ⟨rows, hy, hl⟩).elim
    · cases hcommit : c.answer (log ++ b.script) .commit with
      | ok r =>
        rw [hcommit] at he
        cases he
      | error e' =>
        rw [hcommit] at he
        cases he
        refine .inl ⟨_, prefix_rfl, ⟨_, _, rfl, hy.grants, hcommit⟩, ?_⟩
        simpa using hmem.2
    · cases hcommit : c.answer (log ++ b.script) .commit with
      | error e =>
        rw [hcommit] at hrows
        cases hrows
      | ok r =>
        rw [hcommit] at hrows
        cases hrows
        exact ⟨hy, hl, rfl, r, rfl⟩

end Cursor

/-- **Transactions follow the protocol.** Whatever a database answers, also to earlier calls, the
calls of a batch that is run for all its rows, or for at most one, and the result keep to the
protocol. A batch that is run for at most one row gives that row. -/
theorem transactions_follow_protocol (c : Cursor) (b : Batch) (log : List Call) :
    (∃ calls, (c.execute b log).2 = log ++ calls ∧
      c.Follows b (fun _ => True) log calls (c.execute b log).1) ∧
    ∃ calls result, c.fetchOne b log = (result.map List.getLast?, log ++ calls) ∧
      c.Follows b (fun rows => rows.length ≤ 1) log calls result := by
  refine ⟨?_, ?_⟩
  · obtain ⟨calls, result, hrun, hcourse⟩ := c.transaction_course b none log
    refine ⟨calls, congrArg Prod.snd hrun, ?_⟩
    have hfits : Cursor.Within none = fun _ => True := by
      funext rows
      simp [Cursor.Within]
    rw [← hfits, show (c.execute b log).1 = result from congrArg Prod.fst hrun]
    exact hcourse.follows
  · obtain ⟨calls, result, hrun, hcourse⟩ := c.transaction_course b (some 1) log
    refine ⟨calls, result, ?_, ?_⟩
    · cases result with
      | error e => exact Cursor.bind_run_error hrun
      | ok rows => exact Cursor.bind_run hrun
    · have hfits : Cursor.Within (some 1) = fun rows => rows.length ≤ 1 := by
        funext rows
        simp [Cursor.Within]
      rw [← hfits]
      exact hcourse.follows

namespace Cursor

variable {r : List Json} {log' : List Call}

/-- **What went wrong**: the last of the calls that were tried is the first that was refused, or all
statements went well and the last one gave too many rows. -/
inductive Fails (c : Cursor) (b : Batch) (limit : Option Nat) (log : List Call) :
    List Call → Error → Prop
  | refused {tried : List Call} {e : Error} (he : c.Refuses log tried e) :
      Fails c b limit log tried e
  | tooMany {rows : List Json} (hy : c.Yields log b rows) (hl : ¬ Within limit rows) :
      Fails c b limit log b.script (.multipleResults rows.length)

/-- **How a transaction ends with an error**: the calls up to the one that went wrong, then a single
rollback, unless it was the commit that went wrong. -/
structure Abandons (c : Cursor) (b : Batch) (limit : Option Nat) (log tried log' : List Call)
    (e : Error) : Prop where
  fails : c.Fails b limit log tried e
  within : tried <+: b.script ++ [.commit]
  undone : tried ≠ b.script ++ [.commit] → log' = log ++ tried ++ [.rollback]
  kept : tried = b.script ++ [.commit] → log' = log ++ tried

variable {c : Cursor} {b : Batch} {limit : Option Nat} {log calls tried : List Call} {e : Error}

lemma ne_committed (h : tried <+: b.script) : tried ≠ b.script ++ [.commit] := by
  rintro rfl
  exact (ends_not_mem_script b).1 (h.subset (by simp))

lemma abandons_of_undone (hf : c.Fails b limit log tried e) (hp : tried <+: b.script) :
    c.Abandons b limit log tried (log ++ (tried ++ [.rollback])) e :=
  ⟨hf, hp.trans (List.prefix_append _ _), fun _ => (List.append_assoc _ _ _).symm,
    fun h => (ne_committed hp h).elim⟩

/-- **A transaction that has been started and ends with an error abandons the batch**, whatever its
course. -/
lemma Course.abandons (h : c.Course b limit log calls (.error e))
    (hstart : c.answer log .start = .ok r) :
    ∃ tried, c.Abandons b limit log tried (log ++ calls) e := by
  generalize hresult : Except.error e = result at h
  cases h with
  | idle hb => cases hresult
  | unstarted hb he =>
    rw [hstart] at he
    cases he
  | refused hb hs hp he =>
    cases hresult
    exact ⟨_, abandons_of_undone (.refused he) hp⟩
  | tooMany hb hy hl =>
    cases hresult
    exact ⟨_, abandons_of_undone (.tooMany hy hl) List.prefix_rfl⟩
  | done hb hy hl =>
    cases hcommit : c.answer (log ++ b.script) .commit with
    | ok _ =>
      rw [hcommit] at hresult
      cases hresult
    | error e' =>
      rw [hcommit] at hresult
      cases hresult
      have hrefused : c.Refuses log (b.script ++ [.commit]) e :=
        ⟨_, _, rfl, hy.grants, hcommit⟩
      exact ⟨_, .refused hrefused, List.prefix_rfl, fun h => (h rfl).elim, fun _ => rfl⟩

lemma transaction_abandons (hstart : c.answer log .start = .ok r)
    (h : c.transaction b limit log = (.error e, log')) :
    ∃ tried, c.Abandons b limit log tried log' e := by
  obtain ⟨calls, result, hrun, hcourse⟩ := c.transaction_course b limit log
  rw [h] at hrun
  cases hrun
  exact hcourse.abandons hstart

/-- A row is asked for in vain exactly if the transaction fails. -/
lemma transaction_of_fetchOne (h : c.fetchOne b log = (.error e, log')) :
    c.transaction b (some 1) log = (.error e, log') := by
  cases hrun : c.transaction b (some 1) log with
  | mk result log'' =>
    cases result with
    | ok rows =>
      rw [fetchOne, bind_run hrun] at h
      cases h
    | error e' =>
      rw [fetchOne, bind_run_error hrun] at h
      cases h
      rfl

end Cursor

/-- **An error is rolled back before it is reported, unless the commit is refused.** Whatever a
database answers, if a transaction has been started and ends with an error, then a statement was
refused or the rows are too many, and the rollback is the one call that follows; or the commit was
refused, and no call follows. -/
theorem errors_roll_back_unless_commit_refused {c : Cursor} {b : Batch} {log : List Call}
    {r : List Json} (hstart : c.answer log .start = .ok r) :
    (∀ e log', c.execute b log = (.error e, log') →
      ∃ tried, c.Abandons b none log tried log' e) ∧
    ∀ e log', c.fetchOne b log = (.error e, log') →
      ∃ tried, c.Abandons b (some 1) log tried log' e :=
  ⟨fun _ _ h => Cursor.transaction_abandons hstart h,
    fun _ _ h => Cursor.transaction_abandons hstart (Cursor.transaction_of_fetchOne h)⟩

/-- A database that grants every call but the commit, and gives two rows. -/
def commitRefuser : Cursor where
  answer
    | _, .commit => .error (.connection "refused: commit")
    | _, _ => .ok [.null, .null]

/-- A setting and a statement. -/
def guardedSelect : Batch := ⟨[⟨"SET LOCAL ROLE r", []⟩, ⟨"SELECT 1", []⟩]⟩

/-- The two rows are too many for one row to be asked for, which is rolled back. The refused commit
of the same batch is not. -/
theorem errors_roll_back_unless_commit_refused_rows :
    commitRefuser.fetchOne guardedSelect [] =
      (.error (.multipleResults 2), guardedSelect.script ++ [.rollback]) ∧
    (∃ tried, commitRefuser.Abandons guardedSelect (some 1) [] tried
      (guardedSelect.script ++ [.rollback]) (.multipleResults 2)) ∧
    ∃ tried, commitRefuser.Abandons guardedSelect none [] tried
      (guardedSelect.script ++ [.commit]) (.connection "refused: commit") := by
  have hstart : commitRefuser.answer [] .start = .ok [.null, .null] := rfl
  have h := errors_roll_back_unless_commit_refused (b := guardedSelect) hstart
  exact ⟨rfl, h.2 _ _ rfl, h.1 _ _ rfl⟩

/-- **A refused commit is reported without a rollback.** -/
theorem refused_commit_not_rolled_back :
    commitRefuser.answer [] .start = .ok [.null, .null] ∧
    commitRefuser.execute guardedSelect [] =
      (.error (.connection "refused: commit"), guardedSelect.script ++ [.commit]) ∧
    Call.rollback ∉ guardedSelect.script ++ [.commit] :=
  ⟨rfl, rfl, by simp [Cursor.ends_not_mem_script]⟩

end StagedSql
