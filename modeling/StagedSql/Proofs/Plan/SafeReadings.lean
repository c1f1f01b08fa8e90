import StagedSql.Proofs.Graph.CheckedNodes
import StagedSql.Proofs.Plan.MarkedReadings

/-!
Readings that are planned without surprise.

What a select asks for was checked against the relation whose rows it reads, and a base gives rows
of that relation. So nothing is missing when a SELECT is planned, up to the keys of conditions,
which are not looked at before.
-/

namespace StagedSql

open List Plan
open Condition hiding lookup

variable {α β : Type} {g past : Graph} {part : List (Handle × Node)} {s : PlanState}
  {earlier : Earlier}

/-! ### Steps that never fail -/

/-- The step succeeds from every state. -/
def Plan.Total {α : Type} (x : Plan α) : Prop := ∀ s, ∃ r, x s = .ok r

namespace Plan.Total

variable {x : Plan α} {f : α → Plan β} {e : Except Error α} {a : α}

lemma pure (a : α) : Total (pure a) := fun _ => ⟨_, rfl⟩

lemma lift (h : e = .ok a) : Total (liftM e : Plan α) :=
  fun s => ⟨_, lift_run h s⟩

lemma bind (hx : Total x) (hf : ∀ a, Total (f a)) : Total (x >>= f) := by
  intro s
  obtain ⟨⟨a, s'⟩, ha⟩ := hx s
  rw [bind_run ha]
  exact hf a s'

lemma lift_bind (h : e = .ok a) (hf : Total (f a)) : Total (liftM e >>= f) := by
  intro s
  rw [bind_run (lift_run h s)]
  exact hf s

/-- What is known of the result of the first step may be used for the second one. -/
lemma bind_ensures {P : α → Prop} (hx : Total x) (hP : ∀ s, Ensures x s fun a _ => P a)
    (hf : ∀ a, P a → Total (f a)) : Total (x >>= f) := by
  intro s
  obtain ⟨⟨a, s'⟩, ha⟩ := hx s
  rw [bind_run ha]
  exact hf a (hP s a s' ha) s'

lemma mapM (h : ∀ a, Total (f a)) (l : List α) : Total (l.mapM f) := by
  induction l with
  | nil => exact .pure _
  | cons a rest ih =>
    rw [mapM_cons]
    exact (h a).bind fun _ => ih.bind fun _ => .pure _

lemma forM {f : α → Plan PUnit} (h : ∀ a, Total (f a)) (l : List α) : Total (l.forM f) := by
  rw [forM_eq_mapM]
  exact (mapM h l).bind fun _ => .pure _

end Plan.Total

section Total

variable {outer : Outer} {base : Base} {target : RelationId} {schema : Schema} {name : String}
  {c : Column} {t : Relation}

lemma need_total (stage : Option String) (column : String) :
    Total (need stage column) := by
  cases stage with
  | none => exact .pure _
  | some name => exact fun _ => ⟨_, rfl⟩

lemma needAllIfEmpty_total (o : Opened) (selection : Selection) :
    Total (o.needAllIfEmpty selection) := by
  rw [Opened.needAllIfEmpty]
  split
  · exact fun _ => ⟨_, rfl⟩
  · exact .pure _

/-- The relation of a base is there. -/
def Base.Opens (g : Graph) : Base → Prop
  | .relation id | .union _ id | .walk _ id => ∃ r, g.schema.relation id = .ok r
  | .stage _ | .values .. => True

lemma openBase_total (hb : base.Opens g) (scope : List String) :
    Total (openBase g.schema base scope) := by
  cases base with
  | relation id =>
    obtain ⟨r, hr⟩ := hb
    exact .lift_bind hr fun _ => ⟨_, rfl⟩
  | stage name => exact fun _ => ⟨_, rfl⟩
  | values columns rows types => exact fun _ => ⟨_, rfl⟩
  | union members id =>
    obtain ⟨r, hr⟩ := hb
    have hfresh : Total freshUnion := fun _ => ⟨_, rfl⟩
    have hneed : Total (members.forM needAll) := .forM (fun _ _ => ⟨_, rfl⟩) members
    exact hfresh.bind fun _ => hneed.bind fun _ => .lift_bind hr (.pure _)
  | walk name id =>
    obtain ⟨r, hr⟩ := hb
    exact .lift_bind hr (.pure _)

lemma relatedBase_total (outer : Outer) (name : String) (target : RelationId) :
    Total (relatedBase outer name target) := by
  have hwritten : Total (written? outer.stage name) := fun s => ⟨_, written?_run _ _ s⟩
  refine hwritten.bind fun members => ?_
  cases members <;> exact .pure _

lemma relatedBase_opens (h : ∃ r, g.schema.relation target = .ok r) (outer : Outer) (name : String)
    (s : PlanState) : Ensures (relatedBase outer name target) s fun base _ => base.Opens g :=
  .bind_any fun members _ => by cases members <;> exact .of_pure h

lemma scanAll_total (hb : base.Opens g) (scope : List String) :
    Total (scanAll g.schema base scope) :=
  (openBase_total hb scope).bind fun o => (needAllIfEmpty_total o .empty).bind fun _ => .pure _

lemma joinRows_total (outer : Outer) (c : Column) (name lateral : String) (inner : Scan) :
    Total (joinRows outer c name lateral inner) := by
  unfold joinRows
  split
  · refine (need_total _ _).bind fun _ => (need_total _ _).bind fun _ => ?_
    exact fun _ => ⟨_, rfl⟩
  · exact (need_total _ _).bind fun _ => (need_total _ _).bind fun _ => .pure _

lemma lookupTarget_of_link (h : schema.link? outer.relation name = some (c, t)) :
    ∃ target, lookupTarget schema outer name = .ok (c, target) ∧
      schema.relation target = .ok t := by
  obtain ⟨hc, related, hrelated, ht⟩ := Schema.link?_eq_some.mp h
  obtain ⟨id, hid, hr⟩ := Schema.relation_of_resolve ht
  exact ⟨id, lookupTarget_eq_ok hc hrelated hid, hr⟩

lemma Schema.Accepted.exists_link (hschema : g.schema.Accepted) {r : Relation} (hr : g.Knows r)
    (hc : r.column? name = some c) (hrev : c.isReverse = true) :
    ∃ t, g.schema.link? r name = some (c, t) := by
  obtain ⟨target, via, hkind, hrelated⟩ := Column.related?_of_isReverse hrev
  have hmem := Relation.mem_of_column? hc
  obtain ⟨t, ht, -⟩ :=
    hschema.reverse r (hr.mem_of_related hmem hrelated) c hmem target via hkind
  exact ⟨t, Schema.link?_eq_some.mpr ⟨hc, target, hrelated, ht⟩⟩

/-- **A field that is a column can be shown.** -/
lemma shapeField_total (hschema : g.schema.Accepted) (hk : g.Knows outer.relation)
    (hc : outer.relation.column? name = some c) : Total (shapeField g.schema outer name) := by
  refine .lift_bind (Relation.column_eq_ok.mpr hc) ?_
  split
  · rename_i hrev
    obtain ⟨t, hlink⟩ := hschema.exists_link hk hc hrev
    obtain ⟨target, htarget, hr⟩ := lookupTarget_of_link hlink
    have hfresh : Total freshLateral := fun _ => ⟨_, rfl⟩
    refine .lift_bind htarget (hfresh.bind fun lateral => ?_)
    refine (relatedBase_total outer name target).bind_ensures
      (relatedBase_opens ⟨t, hr⟩ outer name) fun base hb => ?_
    refine (scanAll_total hb outer.scope).bind fun inner => ?_
    exact (joinRows_total outer c name lateral inner).bind fun _ => .pure _
  · exact (need_total _ _).bind fun _ => .pure _

lemma shapeFields_total (hschema : g.schema.Accepted) (hk : g.Knows outer.relation)
    (names : List String) (h : ∀ name ∈ names, ∃ c, outer.relation.column? name = some c) :
    Total (shapeFields g.schema outer names) := by
  induction names with
  | nil => exact .pure _
  | cons name rest ih =>
    obtain ⟨c, hc⟩ := h name mem_cons_self
    refine (shapeField_total hschema hk hc).bind fun _ => ?_
    exact (ih fun n hn => h n (.tail _ hn)).bind fun _ => .pure _

/-- **A walk can begin** at a link of a relation to itself. -/
lemma beginWalk_total (ht : schema.relation target = .ok t) (hname : t.name = outer.relation.name)
    (c : Column)
    (maxDepth : Option UInt32) : Total (beginWalk schema outer c target maxDepth) := by
  refine .lift_bind ht ?_
  rw [if_neg (not_not.mpr hname)]
  exact (need_total _ _).bind fun _ _ => ⟨_, rfl⟩

lemma orderItem_total (outer : Outer) (key : SortKey) : Total (orderItem outer key) :=
  (need_total _ _).bind fun _ => .pure _

end Total

/-! ### Steps that fail as expected -/

/-- **The step fails only as is expected of a part of a graph**, from a state in which whatever is
noted leads to stages of the right relation. -/
def Plan.Safe (g : Graph) (part : List (Handle × Node)) {α : Type} (x : Plan α) (s : PlanState) :
    Prop :=
  s.Marked g (fun _ _ => True) → ∀ e, x s = .error e → e.Expected g part

namespace Plan

variable {x : Plan α}

lemma bind_eq_error {f : α → Plan β} {e : Error} (h : (x >>= f) s = .error e) :
    x s = .error e ∨ ∃ a s', x s = .ok (a, s') ∧ f a s' = .error e := by
  change (x s >>= fun r => f r.1 r.2) = .error e at h
  cases hrun : x s with
  | error err =>
    rw [hrun] at h
    cases h
    exact .inl rfl
  | ok r =>
    rw [hrun] at h
    exact .inr ⟨r.1, r.2, rfl, h⟩

lemma Total.safe (h : Total x) : Safe g part x s := by
  intro _ e he
  obtain ⟨r, hr⟩ := h s
  rw [hr] at he
  cases he

namespace Safe

variable {x : Plan α} {f : α → Plan β} {e : Error} {a : α} {l : List α}

lemma pure (a : α) : Safe g part (pure a) s := (Total.pure a).safe

lemma of_throw (h : e.Expected g part) : Safe g part (throw e : Plan α) s := by
  rintro - _ ⟨⟩
  exact h

lemma of_lift {e : Except Error α} (h : ∀ err, e = .error err → err.Expected g part) :
    Safe g part (liftM e : Plan α) s := by
  cases e with
  | error err => exact of_throw (h err rfl)
  | ok a => exact (Total.lift rfl).safe

lemma bind {post : α → PlanState → Prop} (hk : Keeps (marking g fun _ _ => True) x s post)
    (hx : Safe g part x s) (hf : ∀ a s', s.Continues g s' → post a s' → Safe g part (f a) s') :
    Safe g part (x >>= f) s := by
  intro hs e he
  rcases bind_eq_error he with he | ⟨a, s', ha, he⟩
  · exact hx hs e he
  · obtain ⟨hs', hg, hpost⟩ := hk hs a s' ha
    exact hf a s' hg hpost hs' e he

/-- Nothing has to be known of a state from which nothing fails. -/
lemma bind_total (hx : Safe g part x s) (hf : ∀ a, Total (f a)) : Safe g part (x >>= f) s := by
  intro hs e he
  rcases bind_eq_error he with he | ⟨a, s', -, he⟩
  · exact hx hs e he
  · obtain ⟨r, hr⟩ := hf a s'
    cases hr.symm.trans he

lemma bind_pure {f : α → β} (hx : Safe g part x s) :
    Safe g part (x >>= fun a => Pure.pure (f a)) s :=
  hx.bind_total fun _ => .pure _

lemma lift_bind {e : Except Error α} (he : e = .ok a) (h : Safe g part (f a) s) :
    Safe g part (liftM e >>= f) s := by
  subst he
  exact h

lemma throw_bind (h : e.Expected g part) : Safe g part (throw e >>= f) s :=
  of_throw h

lemma run_bind {s' : PlanState} (hx : x s = .ok (a, s'))
    (hs' : s.Marked g (fun _ _ => True) → s'.Marked g fun _ _ => True) (h : Safe g part (f a) s') :
    Safe g part (x >>= f) s := by
  intro hs e he
  rw [bind_run hx] at he
  exact h (hs' hs) e he

lemma get_bind {f : PlanState → Plan β} (h : Safe g part (f s) s) : Safe g part (get >>= f) s :=
  run_bind rfl id h

lemma mapM (hk : ∀ a ∈ l, ∀ s', s.Continues g s' →
      Keeps (marking g fun _ _ => True) (f a) s' fun _ _ => True)
    (h : ∀ a ∈ l, ∀ s', s.Continues g s' → Safe g part (f a) s') : Safe g part (l.mapM f) s := by
  induction l generalizing s with
  | nil => exact .pure _
  | cons a rest ih =>
    rw [mapM_cons]
    refine bind (hk a (by simp) s (.refl s)) (h a (by simp) s (.refl s)) fun _ s1 hx1 _ => ?_
    refine bind_total ?_ fun _ => .pure _
    exact ih (fun b hb s2 hx2 => hk b (by simp [hb]) s2 (hx1.trans hx2))
      fun b hb s2 hx2 => h b (by simp [hb]) s2 (hx1.trans hx2)

lemma forM {f : α → Plan PUnit} (hk : ∀ a ∈ l, ∀ s', s.Continues g s' →
      Keeps (marking g fun _ _ => True) (f a) s' fun _ _ => True)
    (h : ∀ a ∈ l, ∀ s', s.Continues g s' → Safe g part (f a) s') : Safe g part (l.forM f) s := by
  rw [forM_eq_mapM]
  exact (mapM hk h).bind_pure

end Safe

end Plan

/-! ### The nodes before -/

/-- A node that is there, stands on its own, and is in a part of the graph. -/
def Graph.Ready (past : Graph) (part : List (Handle × Node)) (h : Handle) : Prop :=
  past.Open h ∧ h ∈ part.map Prod.fst

/-- A condition whose keys are those of a node, and which compares with nodes that are there. -/
def Condition.Asks (past : Graph) (part : List (Handle × Node)) (c : Condition) : Prop :=
  (∀ key ∈ c.keys, ∃ p ∈ part, key ∈ p.2.keys) ∧ ∀ h ∈ c.handles, past.Ready part h

/-- **A reading of a source asks for what there is**: its selection fits the relation of the
source. -/
structure Reading.Asks (g past : Graph) (part : List (Handle × Node)) (source : Source)
    (reading : Reading) : Prop where
  opens : reading.base.Opens g
  fits : ∀ r, g.Gives source r → reading.selection.Fits g.schema r
  lookups : ∀ h ∈ reading.selection.handles, past.Ready part h
  conditions : ∀ c ∈ reading.conditions, c.Asks past part

/-- **What is assumed of the nodes before the one at hand.** A row that takes the key of the one
around it is staged with that row around it. -/
structure Earlier.Safe (g past : Graph) (part : List (Handle × Node)) (earlier : Earlier) :
    Prop where
  marks : earlier.Meets (markedNodes g fun _ _ => True)
  stage : ∀ h s, past.Has h → h ∈ part.map Prod.fst → (past.Open h ∨ s.parents ≠ []) →
    Plan.Safe g part (earlier.stage h) s
  read : ∀ enclosed h s, past.Ready part h → Plan.Safe g part (earlier.read enclosed h) s
  reads : ∀ enclosed h s, Ensures (earlier.read enclosed h) s fun r _ => g.Reads s (.node h) r
  scan : ∀ h scope s, past.Ready part h → Plan.Safe g part (earlier.scan h scope) s
  subselect : ∀ h s, past.Ready part h → Plan.Safe g part (earlier.subselect h) s

/-! ### Selections -/

mutual

/-- **The shape of a selection that fits**, by recursion on the selection. -/
theorem shape_safe (hschema : g.schema.Accepted) (he : earlier.Safe g past part) {outer : Outer}
    {s : PlanState} (ho : outer.Marked g s) : ∀ selection : Selection,
      selection.Fits g.schema outer.relation → (∀ h ∈ selection.handles, past.Ready part h) →
      Safe g part (shape g.schema earlier outer selection) s
  | ⟨fields, lookups⟩, hfits, hready => by
    have hrules := marks_shapeRules hschema (permits_all g) he.marks
    refine .bind (hrules.shapeFields ho fields)
      (shapeFields_total hschema ho.known fields hfits.1).safe fun _ s1 hx1 _ => ?_
    exact (shapeLookups_safe hschema he (ho.mono hx1) lookups hfits.2 hready).bind_pure

theorem shapeLookups_safe (hschema : g.schema.Accepted) (he : earlier.Safe g past part)
    {outer : Outer} {s : PlanState} (ho : outer.Marked g s) : ∀ lookups : List (String × Lookup),
      Lookup.FitsEach g.schema outer.relation lookups →
      (∀ h ∈ Lookup.handlesOf lookups, past.Ready part h) →
      Safe g part (shapeLookups g.schema earlier outer lookups) s
  | [], _, _ => .pure _
  | (name, lookup) :: rest, hfits, hready => by
    rw [Lookup.handlesOf, forall_mem_append] at hready
    obtain ⟨⟨c, t, hlink, hfit⟩, hrest⟩ := hfits
    obtain ⟨target, htarget, ht⟩ := lookupTarget_of_link hlink
    have hc := Relation.mem_of_column? (Schema.link?_eq_some.mp hlink).1
    have hfresh : Total freshLateral := fun _ => ⟨_, rfl⟩
    refine .lift_bind htarget ?_
    refine .bind freshLateral_marks hfresh.safe fun lateral s1 hx1 hlateral => ?_
    have hlinks : lookup.Links g (fun _ _ => True) c :=
      Lookup.links_of_all (fun _ _ _ _ _ _ => trivial) lookup ho.known hc
    refine .bind (shapeLookup_marks hschema (permits_all g) he.marks (ho.mono hx1) htarget
      hlateral hlinks fun selection _ =>
        (marks_shapeRules hschema (permits_all g) he.marks).shape selection) ?_
      fun j s2 hx2 _ => ?_
    · exact shapeLookup_safe hschema he (ho.mono hx1) htarget ht lookup hfit hready.1
    · exact (shapeLookups_safe hschema he (ho.mono (hx1.trans hx2)) rest hrest hready.2).bind_pure

theorem shapeLookup_safe (hschema : g.schema.Accepted) (he : earlier.Safe g past part)
    {name lateral : String} {c : Column} {target : RelationId}
    {t : Relation} {outer : Outer} {s : PlanState} (ho : outer.Marked g s)
    (htarget : lookupTarget g.schema outer name = .ok (c, target))
    (ht : g.schema.relation target = .ok t) :
    ∀ lookup : Lookup, lookup.Fits g.schema outer.relation t →
      (∀ h ∈ lookup.handles, past.Ready part h) →
      Safe g part (shapeLookup g.schema earlier outer name c target lateral lookup) s
  | .nested selection, hfit, hready => by
    refine .bind ((relatedBase_marks outer name target).and
      (relatedBase_opens ⟨t, ht⟩ outer name s)) (relatedBase_total outer name target).safe ?_
    rintro base s1 hx1 ⟨⟨hb, hshows⟩, hopens⟩
    refine .bind (openBase_marks hschema (permits_all g) hb outer.scope)
      (openBase_total hopens outer.scope).safe fun o s2 hx2 hopened => ?_
    have hsame : o.relation = t := by
      have := hshows _ (hopened.shows.back hx2.toLengthens hb)
      rw [ht] at this
      exact (Except.ok.inj this).symm
    rw [← hsame] at hfit
    refine .bind (needAllIfEmpty_marks o selection s2) (needAllIfEmpty_total o selection).safe
      fun _ s3 hx3 _ => ?_
    exact (shape_safe hschema he ((hopened.outer outer.scope).mono hx3) selection hfit
      hready).bind_total fun sh => joinRows_total _ _ _ _ _
  | .query h, hfit, hready =>
    (he.scan h outer.scope s (hready h (.head _))).bind_total fun inner => joinRows_total _ _ _ _ _
  | .recursive selection maxDepth, hfit, hready => by
    obtain ⟨related, hlink, hrelation⟩ := lookupTarget_link htarget
    obtain ⟨hc, name', hname', hrelated⟩ := Schema.link?_eq_some.mp hlink
    refine .bind (beginWalk_marks hschema (permits_all g) ho hc hname' hrelated hrelation maxDepth)
      (beginWalk_total ht hfit.1 c maxDepth).safe fun w s1 hx1 hw => ?_
    have hopens : (Base.walk w.table target).Opens g := ⟨t, ht⟩
    refine .bind (openWalk_marks hw.table target _) (openBase_total hopens _).safe
      fun o s2 hx2 hpost => ?_
    obtain ⟨hopened, -⟩ := hpost
    have hsame : o.relation = t := by
      have hshows : g.schema.relation target = .ok o.relation := hopened.shows
      rw [ht] at hshows
      exact (Except.ok.inj hshows).symm
    have hfit' : selection.Fits g.schema o.relation := by
      rw [hsame]
      exact hfit.2
    exact (shape_safe hschema he (hopened.outer _) selection hfit' hready).bind_total
      fun sh _ => ⟨_, rfl⟩

end

/-! ### Conditions -/

section Conditions

variable {key : String} {field : Expr} {op : Operator} {e : Error} {operand : Operand}

lemma compareQuery_error {query : Statement} (h : compareQuery key field op query = .error e) :
    ∃ segment issue, e = .invalidLookup key segment issue := by
  cases op <;> simp only [compareQuery, Except.error.injEq, reduceCtorEq] at h <;>
    exact ⟨_, _, h.symm⟩

lemma compareValue_error {v : Value} (h : compareValue key field op v = .error e) :
    ∃ segment issue, e = .invalidLookup key segment issue := by
  cases op <;> cases v <;> simp only [compareValue, Except.error.injEq, reduceCtorEq] at h <;>
    exact ⟨_, _, h.symm⟩

lemma compareExpr_error {x : Expr} (h : compareExpr key field op x = .error e) :
    ∃ segment issue, e = .invalidLookup key segment issue := by
  cases op <;> simp only [compareExpr, Except.error.injEq, reduceCtorEq] at h <;>
    exact ⟨_, _, h.symm⟩

lemma target_error {schema : Schema} {segment : String} {owner : Relation}
    (h : target schema key segment owner = .error e) :
    ∃ segment issue, e = .invalidLookup key segment issue := by
  unfold target at h
  split at h
  · split at h
    · split at h
      · cases h
      · cases h
        exact ⟨_, _, rfl⟩
    · cases h
      exact ⟨_, _, rfl⟩
  · cases h
    exact ⟨_, _, rfl⟩

lemma parse_error (h : LookupKey.parse key = .error e) :
    ∃ segment issue, e = .invalidLookup key segment issue := by
  rw [LookupKey.parse] at h
  split at h
  · cases h
    exact ⟨_, _, rfl⟩
  · cases h

lemma Error.Expected.of_key (hkey : ∃ p ∈ part, key ∈ p.2.keys)
    (h : ∃ segment issue, e = .invalidLookup key segment issue) : e.Expected g part := by
  obtain ⟨segment, issue, rfl⟩ := h
  exact hkey

lemma leaf_safe (he : earlier.Safe g past part) (hkey : ∃ p ∈ part, key ∈ p.2.keys)
    (path : LookupKey) (ho : ∀ h ∈ operandHandles operand, past.Ready part h)
    (r : Relation) (q : String) :
    Safe g part (leaf earlier.context key path operand r q) s := by
  rw [leaf]
  split
  · dsimp only
    split
    · exact .throw_bind hkey
    · cases operand with
      | value v => exact .of_lift fun _ h => .of_key hkey (compareValue_error h)
      | expr x => exact .of_lift fun _ h => .of_key hkey (compareExpr_error h)
      | query h =>
        have hready := ho h (.head _)
        refine .bind ((he.marks h).subselect s) (he.subselect h s hready) fun query s1 _ _ => ?_
        exact .of_lift fun _ h => .of_key hkey (compareQuery_error h)
  · exact .of_throw hkey

lemma follow_safe (he : earlier.Safe g past part) (hkey : ∃ p ∈ part, key ∈ p.2.keys)
    (path : LookupKey) (ho : ∀ h ∈ operandHandles operand, past.Ready part h)
    (links : List String) :
    ∀ {s : PlanState} (owner : Relation) (q : String) (scope : List String), Safe g part
        (follow earlier.context g.schema key path operand links owner q scope) s := by
  induction links with
  | nil => exact fun owner q _ => leaf_safe he hkey path ho owner q
  | cons segment rest ih =>
    intro s owner q scope
    rw [follow]
    cases htarget : target g.schema key segment owner with
    | error err => exact .throw_bind (.of_key hkey (target_error htarget))
    | ok pair =>
      obtain ⟨c, related⟩ := pair
      obtain ⟨-, _, -, hrelated⟩ := Schema.link?_eq_some.mp (target_link? htarget)
      have hmem := Schema.mem_of_get? hrelated
      refine .lift_bind rfl ?_
      refine .bind (qualify_marks scope (.inl ⟨related, hmem, rfl⟩))
        (Total.safe fun _ => ⟨_, rfl⟩) fun name s1 _ _ => ?_
      exact (ih related name (scope ++ [name])).bind_pure

mutual

/-- **A condition fails only at its keys**, by recursion on the condition. -/
theorem toSqlIn_safe (hschema : g.schema.Accepted) (he : earlier.Safe g past part) {r : Relation}
    (hr : g.Knows r) (q : String) (scope : List String) {s : PlanState} :
    ∀ {c : Condition}, c.Asks past part → (∀ x ∈ c.exprs, x ∈ g.exprs) →
      Safe g part (toSqlIn earlier.context g.schema r q scope c) s
  | .lookup key operand, hc, _ => by
    have hkey := hc.1 key (by simp [Condition.keys])
    rw [toSqlIn, lookupToSql]
    cases hparse : LookupKey.parse key with
    | error err => exact .throw_bind (.of_key hkey (parse_error hparse))
    | ok path =>
      exact .lift_bind rfl (follow_safe he hkey path hc.2 path.joins r q scope)
  | .all items, hc, hexprs | .any items, hc, hexprs =>
    (toSqlEach_safe hschema he hr q scope hc.1 hc.2 hexprs).bind_pure
  | .not c, hc, hexprs => by
    have hsafe : Safe g part (toSqlIn earlier.context g.schema r q scope c) s :=
      toSqlIn_safe hschema he hr q scope hc hexprs
    exact hsafe.bind_pure

theorem toSqlEach_safe (hschema : g.schema.Accepted) (he : earlier.Safe g past part) {r : Relation}
    (hr : g.Knows r) (q : String) (scope : List String) {s : PlanState} :
    ∀ {items : List Condition}, (∀ key ∈ keysOf items, ∃ p ∈ part, key ∈ p.2.keys) →
      (∀ h ∈ handlesOf items, past.Ready part h) →
      (∀ x ∈ exprsEach items, x ∈ g.exprs) →
      Safe g part (toSqlEach earlier.context g.schema r q scope items) s
  | [], _, _, _ => .pure _
  | c :: rest, hkeys, hready, hexprs => by
    rw [keysOf, forall_mem_append] at hkeys
    rw [handlesOf, forall_mem_append] at hready
    rw [exprsEach, forall_mem_append] at hexprs
    have hrules := marks_conditionRules (permits_all g) he.marks hschema hr q scope
    refine .bind (hrules.toSqlIn trivial c hexprs.1)
      (toSqlIn_safe hschema he hr q scope ⟨hkeys.1, hready.1⟩ hexprs.1) fun _ s1 _ _ => ?_
    exact (toSqlEach_safe hschema he hr q scope hkeys.2 hready.2 hexprs.2).bind_pure

end

end Conditions

/-! ### Readings -/

section Readings

variable (hschema : g.schema.Accepted) (he : earlier.Safe g past part)

include hschema he

lemma addConditions_safe {outer : Outer} (ho : outer.Marked g s) (conditions : List Condition)
    (hc : ∀ c ∈ conditions, c.Asks past part)
    (hexprs : ∀ c ∈ conditions, ∀ e ∈ c.exprs, e ∈ g.exprs) (select : Select) :
    Safe g part (addConditions g.schema earlier outer select conditions) s := by
  induction conditions generalizing s select with
  | nil => exact .pure _
  | cons c rest ih =>
    refine .bind (needColumns_marks (permits_all g) ho c)
      (Total.forM (need_total outer.stage) _).safe fun _ s1 hx1 _ => ?_
    refine .bind (toSql_marks (permits_all g) he.marks hschema ho.known outer.qualifier
      outer.scope (hexprs c (by simp))) ?_ fun e s2 hx2 _ => ?_
    · exact toSqlIn_safe hschema he ho.known _ _ (hc c (by simp)) (hexprs c (by simp))
    · exact ih (ho.mono (hx1.trans hx2)) (fun d hd => hc d (by simp [hd]))
        (fun d hd => hexprs d (by simp [hd])) _

/-- **The SELECT of a reading that asks for what there is.** -/
lemma scanReading_safe {source : Source} {r : Reading} (hr : r.Marked g (fun _ _ => True) s source)
    (ha : r.Asks g past part source) (scope : List String) :
    Safe g part (scanReading g.schema earlier r scope) s := by
  refine .bind (openBase_marks hschema (permits_all g) hr.valid scope)
    (openBase_total ha.opens scope).safe fun o s1 hx1 hopened => ?_
  have hfits := ha.fits o.relation (hr.gives _ (hopened.shows.back hx1.toLengthens hr.valid))
  have houter := hopened.outer scope
  refine .bind (addConditions_marks hschema (permits_all g) he.marks houter r.conditions hr.exprs _)
    (addConditions_safe hschema he houter r.conditions ha.conditions hr.exprs _)
    fun filtered s2 hx2 _ => ?_
  refine .bind (needAllIfEmpty_marks o r.selection s2) (needAllIfEmpty_total o r.selection).safe
    fun _ s3 hx3 _ => ?_
  refine (shape_safe hschema he (houter.mono (hx2.trans hx3)) r.selection hfits
    ha.lookups).bind_total fun sh => ?_
  exact (Total.mapM (orderItem_total _) r.ordering).bind fun _ => .pure _

end Readings

end StagedSql
