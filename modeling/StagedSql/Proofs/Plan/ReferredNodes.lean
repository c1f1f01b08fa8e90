import StagedSql.Proofs.Graph.Builds
import StagedSql.Proofs.Plan.PlainSteps

/-!
Writes as statements, and what is referred to.

What a law of planning says of the payload and of the condition of a write, it says of its
statement. A law may say what is done with a node once it is planned; then it is done with all nodes
that are referred to.
-/

namespace StagedSql

open Plan

/-- The columns and the rows of an INSERT. -/
def Assigned.source : Assigned → List String × InsertSource
  | .columns [] => ([], .defaults)
  | .columns items => (items.map (·.column), .rows [items.map (·.value)])
  | .query names rows => (names, .query rows)

/-- What an UPDATE sets, which is something. -/
def Assigned.assignments (r : Relation) : Assigned → Except Error Assignments
  | .columns [] => throw (.invalidValue r.name .nothingToUpdate)
  | .columns items => pure (.columns items)
  | .query names rows => pure (.query names rows)

def Node.condition? : Node → Option Condition
  | .update _ _ condition => condition
  | .delete _ condition => condition
  | _ => none

lemma Node.NoExpr.condition {node : Node} (hn : node.NoExpr) {c : Condition}
    (hc : node.condition? = some c) : c.NoExpr := by
  cases node with
  | update id payload condition =>
    obtain rfl : condition = some c := hc
    exact hn
  | delete id condition =>
    obtain rfl : condition = some c := hc
    exact hn
  | _ => cases hc

/-- **How the statement of a write is made**: of what its payload writes, of which `A` holds, and
then of its condition, of which `C` holds. -/
inductive Statement.Made (law : Law) (schema : Schema)
    (A : Relation → Payload → Assigned → PlanState → Prop)
    (C : Relation → PlanState → Option Expr → PlanState → Prop) (s s' : PlanState) (r : Relation) :
    Node → Statement → Prop
  | insert {id : RelationId} {payload : Payload} {reverse : List (String × List Handle)}
      {a : Assigned} (hr : schema.relation id = .ok r) (ha : A r payload a s') :
      Made law schema A C s s' r (.insert id payload reverse)
        (.insert ⟨r.name, a.source.1, a.source.2, .ofColumns [r.primaryKey]⟩)
  | update {id : RelationId} {payload : Payload} {condition : Option Condition} {a : Assigned}
      {assignments : Assignments} {e : Option Expr} {s1 : PlanState}
      (hr : schema.relation id = .ok r) (hg : law.grows s s1) (ha : A r payload a s1)
      (hset : a.assignments r = .ok assignments) (hg1 : law.grows s1 s') (he : C r s1 e s') :
      Made law schema A C s s' r (.update id payload condition)
        (.update ⟨r.name, assignments, e, .ofColumns [r.primaryKey]⟩)
  | delete {id : RelationId} {condition : Option Condition} {e : Option Expr}
      (hr : schema.relation id = .ok r) (he : C r s e s') :
      Made law schema A C s s' r (.delete id condition)
        (.delete ⟨r.name, e, .ofColumns [r.primaryKey]⟩)

section Writes

variable {law : Law} {schema : Schema} {earlier : Earlier} {s : PlanState}

lemma insertStatement_eq (r : Relation) (payload : Payload) :
    insertStatement schema earlier r payload = (do
      let a ← assignedOf schema earlier r payload
      return .insert ⟨r.name, a.source.1, a.source.2, .ofColumns [r.primaryKey]⟩) := by
  rw [insertStatement]
  refine congrArg _ (funext fun a => ?_)
  rcases a with (_ | ⟨item, rest⟩) | ⟨columns, query⟩ <;> rfl

lemma updateStatement_eq (r : Relation) (payload : Payload) (condition : Option Condition) :
    updateStatement schema earlier r payload condition = (do
      let a ← assignedOf schema earlier r payload
      let assignments ← liftM (a.assignments r)
      let e ← writeCondition schema earlier r condition
      return .update ⟨r.name, assignments, e, .ofColumns [r.primaryKey]⟩) := by
  refine congrArg _ (funext fun a => ?_)
  rcases a with (_ | ⟨item, rest⟩) | ⟨columns, query⟩ <;> rfl

/-- Values that are written into columns, if what is known of each of them lasts. -/
lemma assignments_keep {P : Expr → PlanState → Prop}
    (h : ∀ column v s1, law.grows s s1 → Keeps law (payloadExpr earlier column v) s1 P)
    (hP : ∀ e s1 s2, law.grows s1 s2 → P e s1 → P e s2)
    (entries : List (String × PayloadValue)) :
    Keeps law (entries.mapM (assignment earlier)) s fun items s' =>
      ∀ item ∈ items, P item.value s' := by
  have hall : Keeps law (entries.mapM (assignment earlier)) s fun items s' =>
      List.Forall₂ (fun _ item => P item.value s') entries items :=
    .mapM (fun _ item => hP item.value) fun entry _ s1 hg =>
      (h entry.1 entry.2 s1 hg).bind fun _ _ _ hvalue => .of_pure hvalue
  refine hall.mono fun items s' _ hitems item hmem => ?_
  obtain ⟨_, -, hitem⟩ := exists_of_forall₂_right hitems item hmem
  exact hitem

/-- **What a payload writes**: values, or the rows of a query, whose columns are checked. -/
lemma assignedOf_keeps {post : Assigned → PlanState → Prop} (r : Relation) {payload : Payload}
    (hvalues : ∀ entries, payload = .values entries →
      Keeps law (entries.mapM (assignment earlier)) s fun items => post (.columns items))
    (hquery : ∀ h, payload = .query h → Keeps law (do
        let reading ← earlier.read false h
        scanReading schema earlier (reading.typedFor r) []) s fun scan s' =>
          (∀ c ∈ (scanColumns scan).1, checkTarget r c = .ok ()) →
            post (.query (scanColumns scan).1 (.select (scanColumns scan).2)) s') :
    Keeps law (assignedOf schema earlier r payload) s post := by
  cases payload with
  | values entries => exact (hvalues entries rfl).bind fun items _ _ h => .of_pure h
  | query h =>
    rw [assignedOf, ← bind_assoc]
    refine (hquery h rfl).bind fun scan s1 _ hscan => ?_
    have hcheck : ∀ columns : List String, Keeps law
        (columns.forM fun c => (checkTarget r c : Plan Unit)) s1 fun _ s' =>
          s' = s1 ∧ ∀ c ∈ columns, checkTarget r c = .ok () := by
      intro columns
      induction columns with
      | nil => exact .of_pure ⟨rfl, by simp⟩
      | cons c rest ih =>
        exact .lift_bind fun _ hc => ih.mono fun _ _ _ h =>
          ⟨h.1, List.forall_mem_cons.mpr ⟨hc, h.2⟩⟩
    refine (hcheck _).bind ?_
    rintro _ _ - ⟨rfl, hchecked⟩
    exact .of_pure (hscan hchecked)

/-- **The statement of a write** is made of its parts, and nothing is planned for another node. -/
lemma writeStatement_made {A : Relation → Payload → Assigned → PlanState → Prop}
    {C : Relation → PlanState → Option Expr → PlanState → Prop} {node : Node}
    (hA : ∀ r payload, Keeps law (assignedOf schema earlier r payload) s (A r payload))
    (hC : ∀ r ∈ schema.relations, ∀ s1,
      Keeps law (writeCondition schema earlier r node.condition?) s1 (C r s1)) :
    Keeps law (writeStatement schema earlier node) s fun written s' =>
      (written = none → s' = s) ∧ ∀ statement r, written = some (statement, r) →
        statement.Made law schema A C s s' r node := by
  cases node with
  | insert id payload reverse =>
    refine .lift_bind fun r hr => ?_
    rw [insertStatement_eq, bind_assoc]
    refine (hA r payload).bind fun a _ _ ha => .of_pure ⟨by simp, ?_⟩
    rintro _ _ ⟨⟩
    exact .insert hr ha
  | update id payload condition =>
    refine .lift_bind fun r hr => ?_
    rw [updateStatement_eq, bind_assoc]
    refine (hA r payload).bind fun a s1 hg ha => ?_
    rw [bind_assoc]
    refine .lift_bind fun assignments hset => ?_
    rw [bind_assoc]
    refine (hC r (Schema.mem_of_relation hr) s1).bind fun e s2 hg1 he => .of_pure ⟨by simp, ?_⟩
    rintro _ _ ⟨⟩
    exact .update hr hg ha hset hg1 he
  | delete id condition =>
    refine .lift_bind fun r hr => ?_
    rw [deleteStatement, bind_assoc]
    refine (hC r (Schema.mem_of_relation hr) s).bind fun e _ _ he => .of_pure ⟨by simp, ?_⟩
    rintro _ _ ⟨⟩
    exact .delete hr he
  | _ => exact .of_pure ⟨fun _ => rfl, by simp⟩

end Writes

open Condition

def Reading.handles (r : Reading) : List Handle :=
  handlesOf r.conditions ++ r.selection.handles

lemma Reading.typedFor_handles (r : Reading) (relation : Relation) :
    (r.typedFor relation).handles = r.handles := by
  rw [Reading.typedFor]
  split <;> rfl

def PayloadValue.handles : PayloadValue → List Handle
  | .query h => [h]
  | _ => []

/-- The nodes that the statement of a write refers to. -/
def Node.writeHandles : Node → List Handle
  | .insert _ payload _ => payload.handles
  | .update _ payload condition => payload.handles ++ optionHandles condition
  | .delete _ condition => optionHandles condition
  | _ => []

/-! ### Steps after which nodes are done -/

/-- **A law and what is done with nodes.** -/
structure Progress where
  law : Plan.Law
  Done : Handle → PlanState → Prop
  mono : ∀ {h s s'}, law.grows s s' → Done h s → Done h s'
  quiet : ∀ {s s' : PlanState}, s.Quiet s' → (law.holds s → law.holds s') ∧ law.grows s s'

variable {p : Progress}

/-- From every state, the step keeps to the law, and the nodes are done after it. -/
def Plan.Brings {α : Type} (p : Progress) (hs : List Handle) (x : Plan α) : Prop :=
  ∀ s, Plan.Keeps p.law x s fun _ s' => ∀ h ∈ hs, p.Done h s'

lemma Plan.Brings.of_obeys {α : Type} {x : Plan α} (hx : Obeys p.law x) : Brings p [] x :=
  fun s => (hx s).mono (by simp)

/-- **What is assumed of the nodes before the one at hand**: they are done once they are planned,
and once they are read and what the reading refers to is done. -/
structure Earlier.Brings (p : Progress) (e : Earlier) : Prop where
  read : ∀ enclosed h s, Plan.Keeps p.law (e.read enclosed h) s fun r s' => ∀ {s''},
    p.law.grows s' s'' → (∀ k ∈ r.handles, p.Done k s'') → p.Done h s''
  scan : ∀ h scope, Plan.Brings p [h] (e.scan h scope)
  subselect : ∀ h, Plan.Brings p [h] (e.subselect h)

/-! ### Steps that ask the nodes before -/

/-- **A step that is put together from plain ones and from what it asks the nodes before**, however
these are planned. The list holds the nodes that are asked. -/
inductive Plan.Asks : {α : Type} → List Handle → (Earlier → Plan α) → Prop
  | plain {α : Type} {x : Plan α} (hx : Plain x) : Asks [] fun _ => x
  | throw {α : Type} {hs : List Handle} (error : Error) : Asks hs fun _ => (throw error : Plan α)
  | bind {α β : Type} {hs hs' : List Handle} {x : Earlier → Plan α} {f : Earlier → α → Plan β}
      (hx : Asks hs x) (hf : ∀ a, Asks hs' fun e => f e a) : Asks (hs ++ hs') fun e => x e >>= f e
  | scan (h : Handle) (scope : List String) : Asks [h] fun e => e.scan h scope
  | subselect (h : Handle) : Asks [h] fun e => e.subselect h
  /-- What a node reads is asked in its place. -/
  | read {β : Type} (h : Handle) {f : Earlier → Reading → Plan β}
      (hf : ∀ r : Reading, Asks r.handles fun e => f e r) : Asks [h] fun e => e.read false h >>= f e

namespace Plan.Asks

variable {α β : Type} {hs : List Handle} {x : Earlier → Plan α} {f : Earlier → α → Plan β}

/-- **The nodes that are asked are done.** -/
lemma brings (hx : Asks hs x) {e : Earlier} (he : e.Brings p) : Brings p hs (x e) := by
  induction hx with
  | plain hx => exact .of_obeys (hx.obeys p.quiet)
  | throw error => exact fun _ => .of_throw
  | bind _ _ ihx ihf =>
    exact fun s => (ihx s).bind fun a s1 _ hfirst => (ihf a s1).mono fun _ _ hg hrest =>
      List.forall_mem_append.mpr ⟨fun h hh => p.mono hg (hfirst h hh), hrest⟩
  | scan h scope => exact he.scan h scope
  | subselect h => exact he.subselect h
  | read h _ ih =>
    intro s
    refine (he.read false h s).bind fun r s1 _ hdone => (ih r s1).mono fun _ _ hg hall => ?_
    simpa using hdone hg hall

lemma after {x : Plan α} (hx : Plain x) (hf : ∀ a, Asks hs fun e => f e a) :
    Asks hs fun e => x >>= f e :=
  bind (.plain hx) hf

lemma before {f : α → Plan β} (hx : Asks hs x) (hf : ∀ a, Plain (f a)) :
    Asks hs fun e => x e >>= f := by
  have hboth : Asks (hs ++ []) fun e => x e >>= f := bind hx fun a => .plain (hf a)
  rwa [List.append_nil] at hboth

lemma mapM {handles : α → List Handle} {l : List α} (h : ∀ a ∈ l, Asks (handles a) fun e => f e a) :
    Asks (l.flatMap handles) fun e => l.mapM (f e) := by
  induction l with
  | nil => exact .plain (.pure _)
  | cons a rest ih =>
    simp only [List.mapM_cons]
    exact bind (h a (by simp)) fun _ => before (ih fun b hb => h b (by simp [hb])) fun _ => .pure _

end Plan.Asks

section Readings

open Plan (Asks)

variable (schema : Schema)

/-! ### Conditions -/

lemma leaf_asks (key : String) (path : LookupKey) (operand : Operand) (r : Relation) (q : String) :
    Asks (operandHandles operand) fun e => leaf e.context key path operand r q := by
  simp only [leaf]
  cases r.column? path.field with
  | none => exact .throw _
  | some c =>
    dsimp only
    split
    · exact .throw _
    · cases operand with
      | value v => exact .plain (.lift _)
      | expr x => exact .plain (.lift _)
      | query h => exact .before (.subselect h) fun _ => .lift _

lemma follow_asks (key : String) (path : LookupKey) (operand : Operand) (links : List String) :
    ∀ (owner : Relation) (q : String) (scope : List String), Asks (operandHandles operand) fun e =>
        follow e.context schema key path operand links owner q scope := by
  induction links with
  | nil => exact fun owner q _ => leaf_asks key path operand owner q
  | cons segment rest ih =>
    intro owner q scope
    refine .after (.lift _) fun found => .after (qualify_plain found.2.name scope) fun name => ?_
    exact (ih found.2 name (scope ++ [name])).before fun _ => .pure _

mutual

theorem toSqlIn_asks (r : Relation) (q : String) (scope : List String) : ∀ c : Condition,
      Asks c.handles fun e => toSqlIn e.context schema r q scope c
  | .lookup key operand =>
    .after (.lift _) fun path => follow_asks schema key path operand _ _ _ _
  | .all items => (toSqlEach_asks r q scope items).before fun _ => .pure _
  | .any items => (toSqlEach_asks r q scope items).before fun _ => .pure _
  | .not c => (toSqlIn_asks r q scope c).before fun _ => .pure _

theorem toSqlEach_asks (r : Relation) (q : String) (scope : List String) : ∀ cs : List Condition,
      Asks (handlesOf cs) fun e => toSqlEach e.context schema r q scope cs
  | [] => .plain (.pure _)
  | c :: rest =>
    (toSqlIn_asks r q scope c).bind fun _ =>
      (toSqlEach_asks r q scope rest).before fun _ => .pure _

end

/-! ### Selections -/

mutual

theorem shape_asks (outer : Outer) : ∀ selection : Selection,
    Asks selection.handles fun e => shape schema e outer selection
  | ⟨fields, lookups⟩ =>
    .after (shapeFields_plain schema outer fields) fun _ =>
      (shapeLookups_asks outer lookups).before fun _ => .pure _

theorem shapeLookups_asks (outer : Outer) : ∀ lookups : List (String × Lookup),
    Asks (Lookup.handlesOf lookups) fun e => shapeLookups schema e outer lookups
  | [] => .plain (.pure _)
  | (name, l) :: rest => by
    refine .after (.lift _) fun found => .after freshLateral_plain fun lateral => ?_
    exact (shapeLookup_asks outer name found.1 found.2 lateral l).bind fun _ =>
      (shapeLookups_asks outer rest).before fun _ => .pure _

theorem shapeLookup_asks (outer : Outer) (name : String) (c : Column) (target : RelationId)
    (lateral : String) : ∀ l : Lookup,
    Asks l.handles fun e => shapeLookup schema e outer name c target lateral l
  | .nested selection => by
    refine .after (relatedBase_plain outer name target) fun base => ?_
    refine .after (openBase_plain schema base outer.scope) fun o => ?_
    refine .after (needAllIfEmpty_plain o selection) fun _ => ?_
    exact (shape_asks (o.outer outer.scope) selection).before fun _ =>
      joinRows_plain outer c name lateral _
  | .query h =>
    .before (.scan h outer.scope) fun _ => joinRows_plain outer c name lateral _
  | .recursive selection maxDepth => by
    refine .after (beginWalk_plain schema outer c target maxDepth) fun w => ?_
    refine .after (openBase_plain schema _ _) fun o => ?_
    exact (shape_asks _ selection).before fun _ => walkJoin_plain w name lateral _

end

/-! ### Readings -/

lemma addConditions_asks (outer : Outer) (cs : List Condition) : ∀ s : Select,
      Asks (handlesOf cs) fun e => addConditions schema e outer s cs := by
  induction cs with
  | nil => exact fun s => .plain (.pure _)
  | cons c rest ih =>
    intro s
    refine .after (.forM fun name _ => need_plain outer.stage name) fun _ => ?_
    exact (toSqlIn_asks schema _ _ _ c).bind fun x => ih (s.filter x)

/-- **Readings.** -/
lemma scanReading_asks (r : Reading) (scope : List String) :
    Asks r.handles fun e => scanReading schema e r scope := by
  refine .after (openBase_plain schema r.base scope) fun o => ?_
  refine (addConditions_asks schema _ r.conditions _).bind fun _ => ?_
  refine .after (needAllIfEmpty_plain o r.selection) fun _ => ?_
  refine (shape_asks schema _ r.selection).before fun _ => ?_
  exact .bind (.mapM fun key _ => orderItem_plain _ key) fun _ => .pure _

/-! ### Payloads -/

lemma payloadExpr_asks (column : String) (v : PayloadValue) :
    Asks v.handles fun e => payloadExpr e column v := by
  cases v with
  | value v => exact .plain (.pure _)
  | query h => exact .before (.subselect h) fun _ => .pure _
  | parentKey => exact .plain (parentKey_plain column)

lemma assignment_asks (entry : String × PayloadValue) :
    Asks entry.2.handles fun e => assignment e entry :=
  (payloadExpr_asks entry.1 entry.2).before fun _ => .pure _

lemma assignedOf_asks (r : Relation) (payload : Payload) :
    Asks payload.handles fun e => assignedOf schema e r payload := by
  cases payload with
  | values entries =>
    exact .before (.mapM fun entry _ => assignment_asks entry) fun _ => .pure _
  | query h =>
    refine .read h fun reading => ?_
    rw [← Reading.typedFor_handles reading r]
    refine (scanReading_asks schema (reading.typedFor r) []).before fun scan => ?_
    exact .bind (.forM fun _ _ => .lift _) fun _ => .pure _

lemma writeCondition_asks (r : Relation) (condition : Option Condition) :
    Asks (optionHandles condition) fun e => writeCondition schema e r condition := by
  cases condition with
  | none => exact .plain (.pure _)
  | some c => exact (toSqlIn_asks schema _ _ _ c).before fun _ => .pure _

lemma insertStatement_asks (r : Relation) (payload : Payload) :
    Asks payload.handles fun e => insertStatement schema e r payload := by
  simp only [insertStatement_eq]
  exact (assignedOf_asks schema r payload).before fun _ => .pure _

lemma updateStatement_asks (r : Relation) (payload : Payload) (condition : Option Condition) :
    Asks (payload.handles ++ optionHandles condition) fun e =>
      updateStatement schema e r payload condition := by
  simp only [updateStatement_eq]
  exact (assignedOf_asks schema r payload).bind fun _ => .after (.lift _) fun _ =>
    (writeCondition_asks schema r condition).before fun _ => .pure _

/-- **The statements of writes.** -/
lemma writeStatement_asks (node : Node) :
    Asks node.writeHandles fun e => writeStatement schema e node := by
  cases node with
  | insert id payload reverse =>
    exact .after (.lift _) fun r => (insertStatement_asks schema r payload).before fun _ => .pure _
  | update id payload condition =>
    exact .after (.lift _) fun r => (updateStatement_asks schema r payload condition).before
      fun _ => .pure _
  | delete id condition =>
    refine .after (.lift _) fun r => .before (.before ?_ fun _ => .pure _) fun _ => .pure _
    exact writeCondition_asks schema r condition
  | _ => exact .plain (.pure _)

end Readings

end StagedSql
