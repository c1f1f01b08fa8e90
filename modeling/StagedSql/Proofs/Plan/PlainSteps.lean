import StagedSql.Plan.Stage
import StagedSql.Proofs.Plan.Runs

/-!
Steps of planning that go alike, and steps that make no stage.

Planning a FROM item, a field, a join or an ordering makes up names and notes columns that are read,
and does nothing else. Such steps keep to every law that says nothing of this (`Plan.Plain.quiet`),
and they do not depend on the stages of nodes (`Plan.Plain.blind`).
-/

namespace StagedSql

variable {α β : Type}

namespace Plan

variable {x : Plan α} {f : α → Plan β} {e : Error} {a : α}

/-! ### Related steps -/

lemma bind_error {s : PlanState} (h : x s = .error e) : (x >>= f) s = .error e := by
  change (x s >>= fun r => f r.1 r.2) = _
  rw [h]
  rfl

/-- The step may give this result. -/
def Gives (x : Plan α) (a : α) : Prop := ∃ s s', x s = .ok (a, s')

lemma Gives.pure {b : α} (h : Gives (pure a) b) : b = a := by
  obtain ⟨s, s', hrun⟩ := h
  cases hrun
  rfl

/-- Both runs fail with the same error, or both give the same result and related states. -/
inductive Matches (R : PlanState → PlanState → Prop) :
    Except Error (α × PlanState) → Except Error (α × PlanState) → Prop
  | error (e : Error) : Matches R (.error e) (.error e)
  | ok {s t : PlanState} (a : α) (h : R s t) : Matches R (.ok (a, s)) (.ok (a, t))

/-- **Two steps that take related states to related states.** -/
def Relates (R R' : PlanState → PlanState → Prop) (x y : Plan α) : Prop :=
  ∀ s t, R s t → Matches R' (x s) (y t)

namespace Relates

variable {R R' R'' : PlanState → PlanState → Prop} {x y : Plan α} {f g : α → Plan β} {l : List α}

lemma bind (hx : Relates R R' x y)
    (hf : ∀ a, x.Gives a → Relates R' R'' (f a) (g a)) : Relates R R'' (x >>= f) (y >>= g) := by
  intro s t hst
  have hfirst := hx s t hst
  rcases hxs : x s with e | ⟨a, s'⟩ <;> rcases hyt : y t with e' | ⟨a', t'⟩ <;>
    rw [hxs, hyt] at hfirst <;> cases hfirst
  · rw [bind_error hxs, bind_error hyt]
    exact .error e
  · rename_i hst'
    rw [bind_run hxs, bind_run hyt]
    exact hf a ⟨s, s', hxs⟩ s' t' hst'

lemma of_pure (a : α) : Relates R R (pure a) (pure a) := fun _ _ hst => .ok a hst

lemma of_throw (e : Error) : Relates R R' (throw e : Plan α) (throw e) := fun _ _ _ => .error e

lemma lift_bind {e : Except Error α} (h : ∀ a, e = .ok a → Relates R R' (f a) (g a)) :
    Relates R R' (liftM e >>= f) (liftM e >>= g) := by
  cases e with
  | error e => exact fun _ _ _ => .error e
  | ok a => exact h a rfl

lemma mapM (h : ∀ a ∈ l, Relates R R (f a) (g a)) : Relates R R (l.mapM f) (l.mapM g) := by
  induction l with
  | nil => exact of_pure _
  | cons a rest ih =>
    rw [List.mapM_cons, List.mapM_cons]
    exact bind (h a (by simp)) fun _ _ => bind (ih fun b hb => h b (by simp [hb])) fun _ _ =>
      of_pure _

lemma forM {f g : α → Plan PUnit} (h : ∀ a ∈ l, Relates R R (f a) (g a)) :
    Relates R R (l.forM f) (l.forM g) := by
  rw [forM_eq_mapM, forM_eq_mapM]
  exact bind (mapM h) fun _ _ => of_pure _

lemma mono (h : Relates R R' x y) (hR : ∀ s t, R' s t → R'' s t) : Relates R R'' x y := by
  intro s t hst
  have hboth := h s t hst
  generalize x s = r at hboth ⊢
  generalize y t = r' at hboth ⊢
  cases hboth with
  | error e => exact .error e
  | ok a h' => exact .ok a (hR _ _ h')

end Relates

end Plan

/-! ### States that differ in the stages of nodes -/

/-- **States that differ in the stages of nodes only**: those that are kept have the same stages,
and those that are free have none in the first state. -/
def PlanState.Like (kept free : Handle → Prop) (s t : PlanState) : Prop :=
  ∃ staged, t = { s with staged := staged } ∧
    (∀ h, kept h → staged.lookup h = s.staged.lookup h) ∧ ∀ h, free h → s.staged.lookup h = none

/-- **Steps that go alike** from states that differ in the stages of nodes only. -/
abbrev Plan.Alike {α : Type} (kept free : Handle → Prop) (x y : Plan α) : Prop :=
  Relates (PlanState.Like kept free) (PlanState.Like kept free) x y

/-- **The step does nothing with the stages of nodes.** -/
def Plan.Blind {α : Type} (x : Plan α) : Prop :=
  ∀ s staged, x { s with staged := staged } =
    (x s).map fun r => (r.1, { r.2 with staged := staged })

namespace Plan

variable {kept free : Handle → Prop}

lemma Blind.alike {x : Plan α} (hx : Blind x) : Alike kept free x x := by
  rintro s t ⟨staged, rfl, hkept, hfree⟩
  have hself := hx s s.staged
  rw [hx s staged]
  cases hrun : x s with
  | error e => exact .error e
  | ok r =>
    obtain ⟨a, s'⟩ := r
    rw [hrun] at hself
    have hsame : s'.staged = s.staged :=
      congrArg (fun r : α × PlanState => r.2.staged) (Except.ok.inj hself)
    refine .ok a ⟨staged, rfl, ?_, ?_⟩
    · rwa [hsame]
    · rwa [hsame]

lemma Relates.get_bind {f g : PlanState → Plan α}
    (hview : ∀ s staged, g { s with staged := staged } = g s)
    (h : ∀ s, Alike kept free (f s) (g s)) : Alike kept free (get >>= f) (get >>= g) := by
  rintro s t ⟨staged, rfl, hstaged⟩
  change Matches _ (f s s) (g { s with staged := staged } { s with staged := staged })
  rw [hview]
  exact h s s _ ⟨staged, rfl, hstaged⟩

namespace Blind

lemma bind {x : Plan α} {f : α → Plan β} (hx : Blind x) (hf : ∀ a, Blind (f a)) :
    Blind (x >>= f) := by
  intro s staged
  cases hrun : x s with
  | error e =>
    have hother : x { s with staged := staged } = .error e := by
      rw [hx, hrun]
      rfl
    rw [bind_error hrun, bind_error hother]
    rfl
  | ok r =>
    obtain ⟨a, s'⟩ := r
    have hother : x { s with staged := staged } = .ok (a, { s' with staged := staged }) := by
      rw [hx, hrun]
      rfl
    rw [bind_run hrun, bind_run hother]
    exact hf a s' staged

lemma pure (a : α) : Blind (pure a : Plan α) := fun _ _ => rfl

lemma throw (e : Error) : Blind (throw e : Plan α) := fun _ _ => rfl

lemma lift (e : Except Error α) : Blind (liftM e : Plan α) := by
  intro s staged
  cases e <;> rfl

lemma get_bind {f : PlanState → Plan β} (hview : ∀ s staged, f { s with staged := staged } = f s)
    (hf : ∀ s, Blind (f s)) : Blind (get >>= f) := by
  intro s staged
  change f { s with staged := staged } { s with staged := staged } = _
  rw [hview]
  exact hf s s staged

end Blind

end Plan

open Plan

/-! ### Laws that hold from every state -/

/-- From every state, the step keeps to the law. -/
def Plan.Obeys {α : Type} (law : Law) (x : Plan α) : Prop :=
  ∀ s, Keeps law x s fun _ _ => True

namespace Plan.Obeys

variable {law law' : Law} {x : Plan α} {f : α → Plan β}

lemma bind (hx : Obeys law x) (hf : ∀ a, Obeys law (f a)) : Obeys law (x >>= f) :=
  fun s => (hx s).bind fun a s' _ _ => hf a s'

lemma pure (a : α) : Obeys law (pure a : Plan α) := fun _ => .of_pure trivial

lemma lift (e : Except Error α) : Obeys law (liftM e : Plan α) :=
  fun _ => .of_lift fun _ _ => trivial

lemma throw (e : Error) : Obeys law (throw e : Plan α) := fun _ => .of_throw

lemma get : Obeys law (get : Plan PlanState) := fun s => .of_run rfl id (law.refl s) trivial

lemma mapM {l : List α} (h : ∀ a ∈ l, Obeys law (f a)) : Obeys law (l.mapM f) := by
  intro s
  have hall : Keeps law (l.mapM f) s fun bs _ => List.Forall₂ (fun _ _ => True) l bs :=
    .mapM (fun _ _ _ _ _ h => h) fun a ha s' _ => h a ha s'
  exact hall.forget

lemma of_run (h : ∀ s, ∃ a s', x s = .ok (a, s') ∧ (law.holds s → law.holds s') ∧
    law.grows s s') : Obeys law x := by
  intro s
  obtain ⟨a, s', hx, hs, hg⟩ := h s
  exact .of_run hx hs hg trivial

lemma run (h : Obeys law x) {s s' : PlanState} {a : α} (hs : law.holds s)
    (hx : x s = .ok (a, s')) : law.holds s' ∧ law.grows s s' := by
  obtain ⟨hs', hg, -⟩ := h s hs a s' hx
  exact ⟨hs', hg⟩

end Plan.Obeys

/-! ### Quiet steps -/

namespace PlanState

/-- Nothing changes but names that are made up, other than those of stages, and what is read of
stages. -/
structure Quiet (s s' : PlanState) : Prop extends s.Steady s' where
  written : s'.written = s.written := by rfl
  parents : s'.parents = s.parents := by rfl

lemma Quiet.refl (s : PlanState) : s.Quiet s := {}

lemma Quiet.trans {s s' s'' : PlanState} (h : s.Quiet s') (h' : s'.Quiet s'') : s.Quiet s'' :=
  ⟨⟨h'.stages.trans h.stages, h'.staged.trans h.staged, h'.pages.trans h.pages,
    h'.count.trans h.count, Nat.le_trans h.relations h'.relations⟩, h'.written.trans h.written,
    h'.parents.trans h.parents⟩

end PlanState

/-- Steps that make no stage. -/
def quiet : Law where
  holds _ := True
  grows s s' := s.Quiet s'
  refl := .refl
  trans h h' := h.trans h'

/-! ### Plain steps -/

/-- **A step that is put together from such as make no stage** and depend on no stage of a node. -/
inductive Plan.Plain : {α : Type} → Plan α → Prop
  | pure {α : Type} (a : α) : Plain (pure a : Plan α)
  | lift {α : Type} (e : Except Error α) : Plain (liftM e : Plan α)
  | throw {α : Type} (e : Error) : Plain (throw e : Plan α)
  | bind {α β : Type} {x : Plan α} {f : α → Plan β} (hx : Plain x) (hf : ∀ a, Plain (f a)) :
      Plain (x >>= f)
  /-- The state is looked up, for what does not hold the stages of nodes. -/
  | get_bind {β : Type} {f : PlanState → Plan β}
      (hview : ∀ s staged, f { s with staged := staged } = f s) (hf : ∀ s, Plain (f s)) :
      Plain (get >>= f)
  /-- A name is made up, or a column noted. -/
  | note {α : Type} {f : PlanState → α × PlanState} (hq : ∀ s : PlanState, s.Quiet (f s).2)
      (hb : ∀ s staged, f { s with staged := staged } =
        ((f s).1, { (f s).2 with staged := staged })) : Plain (modifyGet f)

namespace Plan.Plain

variable {x : Plan α} {l : List α}

lemma throw_bind (e : Error) (f : α → Plan β) : Plain (MonadExcept.throw e >>= f) :=
  show Plain (MonadExcept.throw e : Plan β) from throw e

lemma mapM {f : α → Plan β} (h : ∀ a ∈ l, Plain (f a)) : Plain (l.mapM f) := by
  induction l with
  | nil => exact pure _
  | cons a rest ih =>
    rw [List.mapM_cons]
    exact bind (h a (by simp)) fun _ => bind (ih fun b hb => h b (by simp [hb])) fun _ => pure _

lemma forM {f : α → Plan PUnit} (h : ∀ a ∈ l, Plain (f a)) : Plain (l.forM f) := by
  rw [forM_eq_mapM]
  exact bind (mapM h) fun _ => pure _

/-- **Plain steps keep to every law** that says nothing of names and of what is read. -/
lemma obeys {law : Law} (hquiet : ∀ {s s' : PlanState}, s.Quiet s' →
    (law.holds s → law.holds s') ∧ law.grows s s') (hx : Plain x) : Obeys law x := by
  induction hx with
  | pure a => exact .pure a
  | lift e => exact .lift e
  | throw e => exact .throw e
  | bind _ _ ihx ihf => exact .bind ihx ihf
  | get_bind _ _ ihf => exact .bind .get ihf
  | note hq _ => exact .of_run fun s => ⟨_, _, rfl, hquiet (hq s)⟩

lemma quiet (hx : Plain x) : Obeys quiet x := hx.obeys fun h => ⟨id, h⟩

/-- **Plain steps do nothing with the stages of nodes.** -/
lemma blind (hx : Plain x) : Blind x := by
  induction hx with
  | pure a => exact .pure a
  | lift e => exact .lift e
  | throw e => exact .throw e
  | bind _ _ ihx ihf => exact .bind ihx ihf
  | get_bind hview _ ihf => exact .get_bind hview ihf
  | note _ hb => exact fun s staged => congrArg Except.ok (hb s staged)

end Plan.Plain

section Plain

open Plan (Plain)

lemma need_plain (stage : Option String) (column : String) : Plain (need stage column) := by
  cases stage with
  | none => exact .pure _
  | some name =>
    exact .note (fun _ => {}) fun _ _ => rfl

lemma needAll_plain (stage : String) : Plain (needAll stage) :=
  .note (fun _ => {}) fun _ _ => rfl

lemma qualify_plain (name : String) (scope : List String) : Plain (qualify name scope) := by
  refine .note (fun s => ?_) fun s staged => ?_ <;> rw [PlanState.qualify] <;> split
  · exact { relations := Nat.le_succ _ }
  · exact .refl s
  · rfl
  · rfl

lemma freshLateral_plain : Plain freshLateral :=
  .note (fun _ => {}) fun _ _ => rfl

lemma freshAggregate_plain : Plain freshAggregate :=
  .note (fun _ => {}) fun _ _ => rfl

lemma freshUnion_plain : Plain freshUnion :=
  .note (fun _ => {}) fun _ _ => rfl

lemma freshValues_plain : Plain freshValues :=
  .note (fun _ => {}) fun _ _ => rfl

lemma freshWalk_plain : Plain freshWalk :=
  .note (fun _ => {}) fun _ _ => rfl

lemma freshRelation_plain : Plain freshRelation :=
  .note (fun _ => { relations := Nat.le_succ _ }) fun _ _ => rfl

lemma openBase_plain (schema : Schema) (base : Base) (scope : List String) :
    Plain (openBase schema base scope) := by
  cases base with
  | relation id => exact .bind (.lift _) fun r => .bind (qualify_plain _ _) fun _ => .pure _
  | stage name =>
    exact .get_bind (fun _ _ => rfl) fun s => .bind (qualify_plain _ _) fun _ => .pure _
  | values columns rows types => exact .bind freshValues_plain fun _ => .pure _
  | union members id =>
    exact .bind freshUnion_plain fun _ => .bind (.forM fun m _ => needAll_plain m) fun _ =>
      .bind (.lift _) fun _ => .pure _
  | walk name id => exact .bind (.lift _) fun r => .pure _

lemma needAllIfEmpty_plain (o : Opened) (selection : Selection) :
    Plain (o.needAllIfEmpty selection) := by
  rw [Opened.needAllIfEmpty]
  split
  · exact needAll_plain _
  · exact .pure _

lemma scanAll_plain (schema : Schema) (base : Base) (scope : List String) :
    Plain (scanAll schema base scope) :=
  .bind (openBase_plain schema base scope) fun o =>
    .bind (needAllIfEmpty_plain o _) fun _ => .pure _

lemma relatedBase_plain (outer : Outer) (name : String) (target : RelationId) :
    Plain (relatedBase outer name target) := by
  refine .bind ?_ fun members => ?_
  · cases outer.stage with
    | none => exact .pure _
    | some stage => exact .get_bind (fun _ _ => rfl) fun s => .pure _
  · cases members <;> exact .pure _

lemma joinRows_plain (outer : Outer) (c : Column) (name lateral : String) (inner : Scan) :
    Plain (joinRows outer c name lateral inner) := by
  rw [joinRows]
  split
  · exact .bind (need_plain _ _) fun _ => .bind (need_plain _ _) fun _ =>
      .bind freshAggregate_plain fun _ => .pure _
  · exact .bind (need_plain _ _) fun _ => .bind (need_plain _ _) fun _ => .pure _

lemma beginWalk_plain (schema : Schema) (outer : Outer) (c : Column) (target : RelationId)
    (maxDepth : Option UInt32) : Plain (beginWalk schema outer c target maxDepth) := by
  refine .bind (.lift _) fun r => ?_
  dsimp only
  split
  · exact .throw_bind _ _
  · refine .bind (need_plain _ _) fun _ => .bind freshWalk_plain fun _ => ?_
    exact .bind freshRelation_plain fun _ => .bind freshRelation_plain fun _ => .pure _

lemma walkJoin_plain (w : Walk) (name lateral : String) (walked : Scan) :
    Plain (w.join name lateral walked) := .bind freshAggregate_plain fun _ => .pure _

lemma shapeField_plain (schema : Schema) (outer : Outer) (name : String) :
    Plain (shapeField schema outer name) := by
  refine .bind (.lift _) fun c => ?_
  split
  · refine .bind (.lift _) fun found => .bind freshLateral_plain fun lateral => ?_
    refine .bind (relatedBase_plain outer name found.2) fun base => ?_
    refine .bind (scanAll_plain schema base outer.scope) fun inner => ?_
    exact .bind (joinRows_plain outer found.1 name lateral inner) fun _ => .pure _
  · exact .bind (need_plain _ _) fun _ => .pure _

lemma shapeFields_plain (schema : Schema) (outer : Outer) (names : List String) :
    Plain (shapeFields schema outer names) := by
  induction names with
  | nil => exact .pure _
  | cons name rest ih =>
    exact .bind (shapeField_plain schema outer name) fun _ => .bind ih fun _ => .pure _

lemma orderItem_plain (outer : Outer) (key : SortKey) : Plain (orderItem outer key) :=
  .bind (need_plain _ _) fun _ => .pure _

lemma parentKey_plain (column : String) : Plain (parentKey column) := by
  refine .get_bind (fun _ _ => rfl) fun s => ?_
  cases s.parents with
  | nil => exact .throw _
  | cons parent _ => exact .bind (need_plain _ _) fun _ => .pure _

end Plain

end StagedSql
