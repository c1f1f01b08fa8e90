import StagedSql.Proofs.Graph.Builds
import StagedSql.Proofs.Plan.PlainSteps
import StagedSql.Proofs.Sql.Writes

/-!
The stages of a plan, accounted for by the nodes they come from.

A stage comes from a node that was staged, or it holds the page of a select. While planning goes on,
every stage has an origin of its own, and each write that is noted as staged is one
(`PlanState.Accounted`).
-/

namespace StagedSql

open List

variable {g : Graph} {n : Nat} {s s' : PlanState} {α β γ : Type}

lemma map_eq_of_forall₂ {R : α → β → Prop} {f : α → γ} {k : β → γ} {l : List α} {m : List β}
    (h : Forall₂ R l m) (hR : ∀ a b, R a b → f a = k b) : l.map f = m.map k := by
  induction h with
  | nil => rfl
  | cons hab _ ih => rw [map_cons, map_cons, hR _ _ hab, ih]

lemma forall₂_step {R : α → β → Prop} {S : β → γ → Prop} {T : α → γ → Prop} {l : List α}
    {m : List β} {k : List γ} (h : Forall₂ R l m) (h' : Forall₂ S m k)
    (hT : ∀ a b c, R a b → S b c → T a c) : Forall₂ T l k := by
  induction h generalizing k with
  | nil =>
    cases h'
    exact .nil
  | cons hab _ ih =>
    cases h' with
    | cons hbc hrest => exact .cons (hT _ _ _ hab hbc) (ih hrest)

/-! ### Statements of nodes -/

/-- How the value of a column is written: a value is a parameter, all else is a sub-select. -/
def PayloadValue.IsWrittenAs : PayloadValue → Expr → Prop
  | .value v, e => e = .param v
  | .query _, e => ∃ query, e = .subquery query
  | .parentKey, e => ∃ query, e = .subquery query

/-- Whether an INSERT takes the columns and values of a payload. -/
def Payload.IsInserted : Payload → Insert → Prop
  | .values entries, s =>
    s.columns = entries.map (·.1) ∧ ((entries = [] ∧ s.source = .defaults) ∨
        ∃ es, s.source = .rows [es] ∧
          Forall₂ (fun entry e => PayloadValue.IsWrittenAs entry.2 e) entries es)
  | .query _, s => ∃ query, s.source = .query query

/-- Whether an UPDATE sets the columns and values of a payload. -/
def Payload.IsSet : Payload → Assignments → Prop
  | .values entries, assignments => ∃ items, assignments = .columns items ∧
      Forall₂ (fun entry item => entry.1 = item.column ∧
        PayloadValue.IsWrittenAs entry.2 item.value) entries items
  | .query _, assignments => ∃ columns query, assignments = .query columns query

/-- **A statement is the write of a node**: it is of the same kind, on the relation of the node,
writes the payload, and has a condition if the node has one. -/
def Node.IsBody (schema : Schema) : Node → Statement → Prop
  | .insert id payload _, .insert s =>
    ∃ r, schema.relation id = .ok r ∧ s.table = r.name ∧ payload.IsInserted s
  | .update id payload condition, .update s =>
    ∃ r, schema.relation id = .ok r ∧ s.table = r.name ∧ payload.IsSet s.assignments ∧
      s.condition.isSome = condition.isSome
  | .delete id condition, .delete s =>
    ∃ r, schema.relation id = .ok r ∧ s.table = r.name ∧ s.condition.isSome = condition.isSome
  | _, _ => False

/-- Where a stage comes from. -/
inductive Origin where
  /-- The stage runs a node. -/
  | node (h : Handle)
  /-- The stage holds the rows of a select that takes only a part of them. -/
  | page (h : Handle)

def Origin.handle : Origin → Handle
  | .node h => h
  | .page h => h

/-- **A statement is that of a stage with a given origin.** The stage of a write is the write of its
node, with no other write in it. All other stages are SELECTs without any write. -/
def Origin.Makes (g : Graph) : Origin → Statement → Prop
  | .node h, statement => ∃ node, g.node h = .ok node ∧
      ((node.isMutation = true ∧ node.IsBody g.schema statement ∧ statement.writes = [statement]) ∨
        (node.isMutation = false ∧ ∃ s, statement = .select s ∧ s.writes = []))
  | .page h, statement => ∃ node s, g.node h = .ok (.select node) ∧ node.isPaged = true ∧
      statement = .select s ∧ s.limit = node.limit ∧ s.offset = node.offset ∧ s.writes = []

/-- A node of a graph, and the graph of the nodes before it. -/
structure Graph.HasNode (g past : Graph) (node : Node) : Prop where
  schema : past.schema = g.schema
  id : past.id = g.id
  found : g.node ⟨g.id, past.size⟩ = .ok node
  within : (past.push node).Within g

/-- What is noted of stages in a state is still noted in a later one. -/
structure PlanState.Kept (s last : PlanState) : Prop where
  staged : s.staged <:+ last.staged
  pages : s.pages <:+ last.pages

lemma PlanState.Kept.trans {s'' : PlanState} (h : s.Kept s') (h' : s'.Kept s'') : s.Kept s'' :=
  ⟨h.staged.trans h'.staged, h.pages.trans h'.pages⟩

/-- **How the statement of a stage is made**: its origin is planned with the nodes before it, where
the stages that it reads have the names which are noted of them at last. -/
inductive Origin.IsMade (g : Graph) (last : PlanState) : Origin → Statement → Prop
  | write {past : Graph} {node : Node} {statement : Statement} {r : Relation} {s s' : PlanState}
      (hat : g.HasNode past node) (hm : node.isMutation = true)
      (hw : writeStatement g.schema past.planner node s = .ok (some (statement, r), s'))
      (hlast : s'.Kept last) : IsMade g last (.node ⟨g.id, past.size⟩) statement
  | read {past : Graph} {node : Node} {scan : Scan} {s s' : PlanState} (hat : g.HasNode past node)
      (hm : node.isMutation = false)
      (hs : scanAt past past.planner ⟨g.id, past.size⟩ node [] s = .ok (scan, s'))
      (hlast : s'.Kept last) : IsMade g last (.node ⟨g.id, past.size⟩) (.select scan.select)
  | page {past : Graph} {sel : SelectNode} {r : Reading} {scan : Scan} {s s' s'' : PlanState}
      (hat : g.HasNode past (.select sel)) (hp : sel.isPaged = true)
      (hr : readSource past.planner true sel.source s = .ok (r, s'))
      (hs : scanReading past.schema past.planner
        ⟨r.base, .empty, sel.ordering, sel.limit, sel.offset, r.conditions⟩ [] s' = .ok (scan, s''))
      (hlast : s''.Kept last) : IsMade g last (.page ⟨g.id, past.size⟩) (.select scan.select)

lemma Origin.IsMade.mono {o : Origin} {statement : Statement} (h : o.IsMade g s statement)
    (hkept : s.Kept s') : o.IsMade g s' statement := by
  cases h with
  | write hat hm hw hlast => exact .write hat hm hw (hlast.trans hkept)
  | read hat hm hs hlast => exact .read hat hm hs (hlast.trans hkept)
  | page hat hp hr hs hlast => exact .page hat hp hr hs (hlast.trans hkept)

/-! ### The invariant -/

namespace PlanState

def stagedHandles (s : PlanState) : List Handle := s.staged.map (·.1)

def pagedHandles (s : PlanState) : List Handle := s.pages.map (·.1)

/-- It is noted that there is a stage with this origin. -/
def Noted (s : PlanState) : Origin → Prop
  | .node h => h ∈ s.stagedHandles
  | .page h => h ∈ s.pagedHandles

/-- The stages and their origins. -/
structure HasOrigins (g : Graph) (s : PlanState) (origins : List Origin) : Prop where
  nodup : origins.Nodup
  made : Forall₂ (Origin.IsMade g s) origins (s.stages.map (·.statement))
  noted : ∀ o ∈ origins, s.Noted o
  writes : ∀ h ∈ s.stagedHandles, ∀ node, g.node h = .ok node → node.isMutation = true →
    Origin.node h ∈ origins

/-- **The stages are accounted for**: they have origins. -/
def Accounted (g : Graph) (s : PlanState) : Prop := ∃ origins, s.HasOrigins g origins

/-- What is noted besides are stages with origins among given ones. -/
def Extends (B : Origin → Prop) (s s' : PlanState) : Prop := ∀ o, s'.Noted o → s.Noted o ∨ B o

variable {s'' : PlanState} {o : Origin} {statement : Statement} {B B' : Origin → Prop}

lemma Extends.refl (B : Origin → Prop) (s : PlanState) : s.Extends B s := fun _ => .inl

lemma Extends.trans (h : s.Extends B s') (h' : s'.Extends B s'') : s.Extends B s'' :=
  fun o ho => (h' o ho).elim (h o) .inr

lemma Extends.mono (h : s.Extends B s') (hB : ∀ o, B o → B' o) : s.Extends B' s' :=
  fun o ho => (h o ho).imp_right (hB o)

lemma Extends.of_not (h : s.Extends B s') (hB : ¬ B o) (ho : s'.Noted o) : s.Noted o :=
  (h o ho).resolve_right hB

/-! ### One more stage -/

lemma noted_staged {own : Handle} {name : String} (hstaged : s'.staged = (own, name) :: s.staged)
    (hpages : s'.pages = s.pages) (o : Origin) : s'.Noted o ↔ o = .node own ∨ s.Noted o := by
  cases o <;> simp [Noted, stagedHandles, pagedHandles, hstaged, hpages]

lemma noted_paged {own : Handle} {name : String} (hstaged : s'.staged = s.staged)
    (hpages : s'.pages = (own, name) :: s.pages) (o : Origin) :
    s'.Noted o ↔ o = .page own ∨ s.Noted o := by
  cases o <;> simp [Noted, stagedHandles, pagedHandles, hstaged, hpages]

section Notes

variable (hnoted : ∀ p, s'.Noted p ↔ p = o ∨ s.Noted p) (hkept : s.Kept s')

include hnoted

lemma Extends.of_noted (ho : B o) : s.Extends B s' := by
  intro p hp
  rcases (hnoted p).mp hp with rfl | hp
  · exact .inr ho
  · exact .inl hp

include hkept

lemma Accounted.add (hs : s.Accounted g) (hnew : ¬ s.Noted o) (hmade : o.IsMade g s' statement)
    (hstages : s'.stages.map (·.statement) = s.stages.map (·.statement) ++ [statement]) :
    s'.Accounted g := by
  obtain ⟨origins, ho⟩ := hs
  refine ⟨origins ++ [o], ?_, ?_, ?_, ?_⟩
  · exact nodup_append_comm.mp (nodup_cons.mpr ⟨fun h => hnew (ho.noted o h), ho.nodup⟩)
  · rw [hstages]
    exact rel_append (ho.made.imp fun _ _ h => h.mono hkept) (.cons hmade .nil)
  · intro p hp
    rw [hnoted p]
    exact (mem_append.mp hp).symm.imp mem_singleton.mp (ho.noted p)
  · intro h hh node hn hm
    rcases (hnoted (.node h)).mp hh with rfl | hh
    · exact mem_concat_self
    · exact mem_append_left _ (ho.writes h hh node hn hm)

/-- What is no write is noted as having a stage, though there is none of its own. -/
lemma Accounted.note (hs : s.Accounted g) {node : Node} (hnode : g.node o.handle = .ok node)
    (hread : node.isMutation = false) (hstages : s'.stages = s.stages) : s'.Accounted g := by
  obtain ⟨origins, ho⟩ := hs
  refine ⟨origins, ho.nodup, hstages ▸ ho.made.imp fun _ _ h => h.mono hkept,
    fun p hp => (hnoted p).mpr (.inr (ho.noted p hp)), fun h hh node' hn hm => ?_⟩
  rcases (hnoted (.node h)).mp hh with rfl | hh
  · cases hnode.symm.trans hn
    cases hread.symm.trans hm
  · exact ho.writes h hh node' hn hm

end Notes

end PlanState

/-- The law of planning: stages are accounted for, and what is staged is among given nodes. -/
def accounting (g : Graph) (B : Origin → Prop) : Plan.Law where
  holds s := s.Accounted g
  grows s s' := s.Extends B s'
  refl s := .refl B s
  trans h h' := h.trans h'

namespace PlanState

lemma noted_of_eq (hstaged : s'.staged = s.staged) (hpages : s'.pages = s.pages) (o : Origin) :
    s'.Noted o ↔ s.Noted o := by
  cases o <;> simp [Noted, stagedHandles, pagedHandles, hstaged, hpages]

lemma Accounted.congr (hs : s.Accounted g) (hstages : s'.stages = s.stages)
    (hstaged : s'.staged = s.staged) (hpages : s'.pages = s.pages) : s'.Accounted g := by
  obtain ⟨origins, ho⟩ := hs
  have hsame := noted_of_eq hstaged hpages
  have hkept : s.Kept s' := ⟨hstaged ▸ suffix_rfl, hpages ▸ suffix_rfl⟩
  exact ⟨origins, ho.nodup, hstages ▸ ho.made.imp fun _ _ h => h.mono hkept,
    fun o h => (hsame o).mpr (ho.noted o h), fun h hh => ho.writes h ((hsame (.node h)).mp hh)⟩

lemma Extends.of_eq {B : Origin → Prop} (hstaged : s'.staged = s.staged)
    (hpages : s'.pages = s.pages) : s.Extends B s' :=
  fun o ho => .inl ((noted_of_eq hstaged hpages o).mp ho)

end PlanState

end StagedSql
