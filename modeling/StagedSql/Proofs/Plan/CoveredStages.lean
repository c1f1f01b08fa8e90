import StagedSql.Proofs.Plan.CoveredReadings
import StagedSql.Proofs.Plan.ReferredNodes
import StagedSql.Proofs.Plan.Nodes

/-!
What stages read of stages is noted.
-/

namespace StagedSql

open List Plan

variable {schema : Schema} {earlier : Earlier} {s : PlanState}

/-! ### Writes -/

section Payloads

variable {rs : Requirements} {a : Assigned}

lemma parentKey_covers (column : String) :
    Keeps (covering schema) (parentKey column) s fun e s' =>
      ∀ env, Allowed (s'.required.Meets schema) (e.reads env) := by
  refine .get_bind ?_
  cases s.parents with
  | nil => exact .of_throw
  | cons parent _ =>
    refine (need_covers (some parent.stage) parent.key).bind fun _ s1 _ hhas => .of_pure ?_
    intro env
    rw [Expr.reads, Statement.reads, Select.reads_allowed]
    refine ⟨by simp, ?_, allowed_nil, allowed_nil, allowed_nil, allowed_nil⟩
    change Allowed _ ((Expr.of parent.stage parent.key).reads
      ((parent.stage, some parent.stage) :: env) ++ [])
    rw [append_nil]
    refine of_meets ?_ hhas
    exact Bindings.leads_cons_self (fun t ht _ => ht) env parent.stage

lemma payloadExpr_covers (he : earlier.Meets (coveredNodes schema)) (column : String)
    (v : PayloadValue) : Keeps (covering schema) (payloadExpr earlier column v) s fun e s' =>
      ∀ env, Allowed (s'.required.Meets schema) (e.reads env) := by
  cases v with
  | value v => exact .of_pure fun env => by simp [Expr.reads]
  | query h =>
    refine ((he h).subselect s).bind fun query s1 _ hreads => .of_pure fun env => ?_
    exact hreads env
  | parentKey => exact parentKey_covers column

lemma Requirements.covers_of_all {t : String} (h : rs.Covers (t, none))
    (c : Option String) : rs.Covers (t, c) := by
  obtain ⟨required, hlookup, hcovers⟩ := h
  cases required with
  | all => exact ⟨.all, hlookup, trivial⟩
  | columns names => exact hcovers.elim

/-- A SELECT with its columns written out reads nothing that is not noted. If it named none before,
all columns are noted. -/
lemma scanColumns_covers {scan : Scan} {scope : List String} (h : scan.Covered schema s scope)
    (env : Bindings) : Allowed (s.required.Meets schema) ((scanColumns scan).2.reads env) := by
  rw [scanColumns]
  split
  · rename_i hstar
    have hempty := h.toIsOf.isStar_iff.mp hstar
    have hreads := h.reads env
    rw [Select.reads_allowed] at hreads ⊢
    obtain ⟨hall, -, hrest⟩ := hreads
    refine ⟨fun hnames => hall hempty, ?_, hrest⟩
    rw [SelectItem.readsEach_allowed]
    intro item hitem
    obtain ⟨name, -, rfl⟩ := mem_map.mp hitem
    refine of_allowed fun t ht hs => ?_
    obtain ⟨source, hsource, hbound⟩ := h.source
    have hmem : ∃ b ∈ scan.select.own, b.1 = scan.qualifier := by
      refine ⟨source.bound, mem_append_right _ ?_, hbound⟩
      rw [hsource]
      exact mem_singleton.mpr rfl
    have htable : t ∈ Bindings.tables scan.select.own := Bindings.mem_tables_of_lookup hmem ht
    exact Requirements.covers_of_all (hall hempty t htable hs) _
  · exact h.reads env

/-- What a payload writes reads nothing of stages but what is noted, wherever it is put. -/
def Assigned.Covered (schema : Schema) (rs : Requirements) : Assigned → Prop
  | .columns items => ∀ item ∈ items, ∀ env, Allowed (rs.Meets schema) (item.value.reads env)
  | .query _ statement => ∀ env, Allowed (rs.Meets schema) (statement.reads env)

lemma Reading.Known.typedFor {r : Reading} (h : r.Known s) (relation : Relation) :
    (r.typedFor relation).Known s := by
  rw [Reading.typedFor]
  split
  · exact ⟨trivial, h.noExpr⟩
  · exact h

lemma knows_nil (s : PlanState) : s.Knows [] := fun _ _ => by simp

lemma assignedOf_covers (he : earlier.Meets (coveredNodes schema)) (hschema : schema.Qualifies)
    (relation : Relation) (payload : Payload) :
    Keeps (covering schema) (assignedOf schema earlier relation payload) s fun a s' =>
      a.Covered schema s'.required := by
  refine assignedOf_keeps relation (fun entries _ => ?_) fun h _ => ?_
  · exact assignments_keep (fun column v _ _ => payloadExpr_covers he column v)
      (fun _ _ _ hx h env => hx.required.allowed (h env)) entries
  · refine ((he h).read false s).bind fun reading s1 _ hr => ?_
    refine (scanReading_covers he hschema (hr.typedFor relation) (knows_nil s1)).mono
      fun scan s2 _ hscan _ env => ?_
    exact scanColumns_covers hscan env

lemma Assigned.Covered.source (h : a.Covered schema rs)
    (env : Bindings) : Allowed (rs.Meets schema) (a.source.2.reads env) := by
  rcases a with (_ | ⟨item, rest⟩) | ⟨names, rows⟩
  · exact allowed_nil
  · change Allowed _ (Expr.readsRows env [(item :: rest).map (·.value)])
    rw [Expr.readsRows_allowed]
    intro row hrow e hmem
    rw [mem_singleton.mp hrow] at hmem
    obtain ⟨x, hx, rfl⟩ := mem_map.mp hmem
    exact h x hx env
  · exact h env

lemma Assigned.Covered.assignments {r : Relation} {set : Assignments} (h : a.Covered schema rs)
    (hset : a.assignments r = .ok set) (env : Bindings) :
    Allowed (rs.Meets schema) (set.reads env) := by
  rcases a with (_ | ⟨item, rest⟩) | ⟨names, rows⟩ <;> cases hset
  · exact Assignment.readsEach_allowed.mpr fun item hitem => h item hitem env
  · exact h env

lemma writeCondition_covers (he : earlier.Meets (coveredNodes schema)) (hschema : schema.Qualifies)
    (relation : Relation) {condition : Option Condition}
    (hc : ∀ c, condition = some c → c.NoExpr) :
    Keeps (covering schema) (writeCondition schema earlier relation condition) s fun e s' =>
      ∀ env, Allowed (s'.required.Meets schema)
        (Expr.readsOption ((relation.name, none) :: env) e) := by
  cases condition with
  | none => exact .of_pure fun env => allowed_nil
  | some c =>
    refine (toSql_covers he hschema relation relation.name [relation.name] (hc c rfl)).bind
      fun e s1 _ ⟨hcov, _⟩ => .of_pure fun env => andCondition_allowed allowed_nil ?_
    refine hcov _ _ (.refl _) fun name _ => of_meets_none ?_
    exact Bindings.leads_cons_self (by simp) env relation.name

/-- **The statement of a write** on a relation gives back the primary key and reads nothing of
stages but what is noted. -/
lemma writeStatement_covers (he : earlier.Meets (coveredNodes schema)) (hschema : schema.Qualifies)
    {node : Node} (hn : node.NoExpr) :
    Keeps (covering schema) (writeStatement schema earlier node) s fun written s' =>
      ∀ statement relation, written = some (statement, relation) → relation ∈ schema.relations ∧
        statement.returning? = some (relation.name, .ofColumns [relation.primaryKey]) ∧
        ∀ env, Allowed (s'.required.Meets schema) (statement.reads env) := by
  refine (writeStatement_made (assignedOf_covers he hschema) fun r _ s1 =>
    writeCondition_covers he hschema r fun c hc => hn.condition hc).mono
      fun written s' _ hmade statement r hw => ?_
  cases hmade.2 statement r hw with
  | insert hr ha => exact ⟨Schema.mem_of_relation hr, rfl, ha.source⟩
  | update hr _ ha hset hg he =>
    refine ⟨Schema.mem_of_relation hr, rfl, fun env => ?_⟩
    rw [Statement.reads, allowed_append]
    exact ⟨hg.required.allowed (ha.assignments hset _), he env⟩
  | delete hr he => exact ⟨Schema.mem_of_relation hr, rfl, he⟩

end Payloads

/-! ### New stages -/

lemma split_append_singleton {α : Type} {l before after : List α} {a x : α}
    (h : l ++ [a] = before ++ x :: after) :
    (before = l ∧ x = a) ∨ ∃ more, l = before ++ x :: more := by
  rcases append_eq_append_iff.mp h with ⟨new, hbefore, hrest⟩ | ⟨new, hold, hrest⟩
  · cases new with
    | nil =>
      simp_all
    | cons y more => simp at hrest
  · cases new with
    | nil =>
      cases hrest
      exact .inl ⟨by rw [hold, append_nil], rfl⟩
    | cons y more =>
      cases hrest
      exact .inr ⟨more, hold⟩

namespace PlanState

variable {s' : PlanState} {own : Handle} {stage : Stage}

namespace Adds

lemma stageNames (h : s.Adds own stage s') : s'.stageNames = s.stageNames ++ [stage.name] := by
  rw [PlanState.stageNames, h.stages, map_append]
  rfl

lemma mem (h : s.Adds own stage s') : stage.name ∈ s'.stageNames := by
  rw [h.stageNames]
  exact mem_concat_self

lemma mem_of_mem (h : s.Adds own stage s') {name : String} (hn : name ∈ s.stageNames) :
    name ∈ s'.stageNames := by
  rw [h.stageNames]
  exact mem_append_left _ hn

lemma numbered_names (h : s.Adds own stage s')
    (hs : s.stageNames = (List.range s.names.stages).map fun i => numberedName 't' (i + 1)) :
    s'.stageNames = (List.range s'.names.stages).map fun i => numberedName 't' (i + 1) := by
  rw [h.stageNames, hs, h.names, range_succ, map_append, h.name]
  rfl

/-- Whatever is noted for nodes leads to stages. -/
lemma mem_of_noted (h : s.Adds own stage s') {old new : List (Handle × String)}
    (hnew : ∀ e ∈ new, e ∈ old ∨ e = (own, stage.name)) (hold : ∀ e ∈ old, e.2 ∈ s.stageNames) :
    ∀ e ∈ new, e.2 ∈ s'.stageNames := by
  intro e he
  rcases hnew e he with he | rfl
  · exact h.mem_of_mem (hold e he)
  · exact h.mem

/-- Stages lead to no rows but those that stages led to before. -/
lemma exists_written (h : s.Adds own stage s') (e : (String × String) × List String)
    (he : e ∈ s'.written) : ∃ e' ∈ s.written, e'.2 = e.2 := by
  obtain ⟨base, hwritten⟩ := h.written
  rw [hwritten] at he
  rcases mem_append.mp he with he | he
  · exact (mem_inherited he).2
  · exact ⟨e, he, rfl⟩

/-- What holds of all stages and those before them holds if it does of the new one. -/
lemma forall_split (h : s.Adds own stage s') {P : List String → Stage → Prop}
    (hold : ∀ before st after, s.stages = before ++ st :: after → P (before.map (·.name)) st)
    (hnew : P s.stageNames stage) :
    ∀ before st after, s'.stages = before ++ st :: after → P (before.map (·.name)) st := by
  intro before st after hsplit
  rw [h.stages] at hsplit
  rcases split_append_singleton hsplit with ⟨rfl, rfl⟩ | ⟨more, hmore⟩
  · exact hnew
  · exact hold before st more hmore

lemma forall_stage (h : s.Adds own stage s') {P : Stage → Prop} (hold : ∀ st ∈ s.stages, P st)
    (hnew : P stage) : ∀ st ∈ s'.stages, P st := by
  rw [h.stages]
  exact forall_mem_append.mpr ⟨hold, forall_mem_singleton.mpr hnew⟩

end Adds

end PlanState

/-- **A stage is added.** It reads what is noted, and it is ready to be widened after those before
it. -/
lemma PlanState.Covered.add {schema : Schema} {s s' : PlanState} {own : Handle} {stage : Stage}
    (hs : s.Covered schema) (ha : s.Adds own stage s')
    (hreads : Allowed (s.required.Meets schema) (stage.statement.reads []))
    (hfits : stage.Fits schema s.stageNames) : s'.Covered schema := by
  refine ⟨ha.numbered_names hs.names, ?_, ha.forall_split hs.fits hfits,
    ha.mem_of_noted ha.staged hs.staged, ha.mem_of_noted ha.pages hs.pages⟩
  rw [ha.required]
  exact ha.forall_stage hs.reads hreads

section Nodes

variable {past : Graph} {node : Node} {own : Handle}

lemma PlanState.Adds.advances {s' : PlanState} {stage : Stage} (h : s.Adds own stage s') :
    s.Advances s' :=
  ⟨by simp [h.names], h.required ▸ .refl _, [stage], h.stages⟩

/-- **The SELECT of a stage** is added, ready to be widened. -/
lemma Scan.Covered.staged {scan : Scan} (h : scan.Covered schema s []) :
    Keeps (covering schema) (scan.toStage own) s (fun name s' => name ∈ s'.stageNames) ∧
      Keeps (covering schema) (scan.toPage own) s fun name s' => name ∈ s'.stageNames := by
  refine Scan.keeps_adds fun s' hs ha => ⟨hs.add ha ?_ ?_, ha.advances, ha.mem⟩
  · change Allowed _ (Statement.reads [] (.select scan.select))
    exact h.reads []
  · refine .inr ⟨scan.select, scan.qualifier, h.toIsOf, rfl, rfl, ?_, h.base⟩
    intro t ht hs
    refine h.leads [] t ?_ hs
    rwa [Select.bindings, append_nil]

lemma covering_links (he : earlier.Meets (coveredNodes schema)) (stage : String)
    (relation : Relation) : Links (covering schema) earlier stage relation (fun _ => True)
      (fun _ _ => True) (fun _ _ => True) True where
  known_mono _ _ := trivial
  member_mono _ _ := trivial
  done_mono _ _ := trivial
  found _ _ := trivial
  child h s := ((he h).stage s).mono fun _ _ _ _ => ⟨trivial, trivial⟩
  set _ _ _ _ := .of_notes rfl {} trivial
  pushed _ := trivial
  within _ h := .notes_bind rfl {} <| h.bind fun _ _ _ hdone =>
      .of_notes rfl {} hdone

variable (past) (he : earlier.Meets (coveredNodes past.schema)) (hschema : past.schema.Qualifies)
  (hn : node.NoExpr)

include he hschema hn

lemma stageWrite_covers :
    Keeps (covering past.schema) (stageWrite past earlier own node) s fun name s' =>
      ∀ n, name = some n → n ∈ s'.stageNames := by
  refine stageWrite_keeps (writeStatement_covers he hschema hn) (fun _ _ _ => by simp)
    fun statement relation s1 hs1 hx hwritten => ?_
  have ha := s1.addWrite_adds own statement relation
  obtain ⟨hrelation, hreturning, hreads⟩ := hwritten statement relation rfl
  refine ⟨hs1.add ha (hreads []) (.inl ⟨relation, hrelation, hreturning⟩),
    hx.trans ha.advances, ?_⟩
  refine (linkWrite_links (covering_links he s1.nextStage relation) trivial
    fun _ _ _ _ _ _ _ => trivial).mono fun _ s3 hx3 _ => ?_
  rintro n ⟨⟩
  exact hx3.mem_stageNames ha.mem

/-- Nodes as readings. -/
lemma covers_readRules : (coveredNodes past.schema).ReadRules past earlier own node where
  before := he
  staged_mono hx h := hx.mem_stageNames h
  scope_mono hx h := h.mono hx
  scope_nil := knows_nil
  staged hs h := hs.staged _ h
  paged _ hs h := hs.pages _ h
  write _ _ := stageWrite_covers past he hschema hn
  page {sel r s0 s} _ _ _ _ _ _ hr := by
    have hpage : Reading.Known s
        ⟨r.base, .empty, sel.ordering, sel.limit, sel.offset, r.conditions⟩ := ⟨hr.base, hr.noExpr⟩
    exact (scanReading_covers he hschema hpage (knows_nil _)).bind fun _ _ _ hscan =>
      hscan.staged.2
  ofRelation _ _ := ⟨trivial, by simp [Reading.ofBase]⟩
  ofStage h := ⟨h, by simp [Reading.ofBase]⟩
  ofPage _ h := ⟨h, by simp⟩
  select _ _ h := ⟨h.base, h.noExpr⟩
  filter hnode h := by
    subst hnode
    exact ⟨h.base, forall_mem_append.mpr ⟨h.noExpr, forall_mem_singleton.mpr hn⟩⟩
  common _ _ _ h := h
  values _ _ := ⟨trivial, by simp [Reading.ofBase]⟩
  key _ _ _ h := ⟨h.base, h.noExpr⟩
  scan _ hr hk := scanReading_covers he hschema hr hk
  select_of_scan {s scan s'} h env := h.reads env

/-- Nodes as readings and stages. -/
lemma covers_meetsAt :
    (Earlier.ofNode past earlier node).MeetsAt (coveredNodes past.schema) own := by
  refine ofNode_meets (covers_readRules past he hschema hn) (fun hscan => hscan.staged.1)
    fun {_ _ last s} _ hnames hlast => ?_
  obtain ⟨h, -, hmem⟩ := exists_of_forall₂_right hnames last (mem_of_getLast? hlast)
  exact .of_run rfl (fun hs => ⟨hs.names, hs.reads, hs.fits,
    forall_mem_cons.mpr ⟨hmem, hs.staged⟩, hs.pages⟩)
    ⟨le_rfl, .refl _, .of_stages rfl⟩ hmem

end Nodes

/-- **All nodes of a graph.** -/
lemma planner_covers {g : Graph} (hschema : g.schema.Qualifies) (hg : g.NoExpr) :
    g.planner.Meets (coveredNodes g.schema) :=
  planner_meets fun _ node rest _ hnodes he =>
    covers_meetsAt ⟨g.id, g.schema, rest⟩ he hschema (hg node (by simp [hnodes]))

end StagedSql
