import StagedSql.Proofs.Graph.Views
import StagedSql.Proofs.Plan.RowStatements

/-!
Readings of chains of selects and filters.

A chain is read from its base up. A statement about readings that is kept by each step holds of the
reading of every chain (`readView_ensures`).
-/

namespace StagedSql

open List Plan

/-! ### Pages -/

lemma lookup_inherited (written : List ((String × String) × List String)) (base name c : String) :
    (inherited written (some base) name).lookup (name, c) = written.lookup (base, c) := by
  rw [inherited]
  induction written with
  | nil => rfl
  | cons e rest ih =>
    grind

namespace PlanState

variable {s : PlanState}

lemma addPage_find? (hs : s.Numbered) (own : Handle) (scan : Scan) :
    (s.addPage own scan).stages.find? (·.name == s.nextStage) = some (s.stageOf scan) := by
  rw [← (s.addPage_adds own scan).find? hs [], append_nil]
  rfl

lemma addPage_written (hs : s.Numbered) (own : Handle) {scan : Scan} {base : String}
    (hbase : scan.stage = some base) (c : String) :
    (s.addPage own scan).written.lookup (s.nextStage, c) = s.written.lookup (base, c) := by
  have hnone := hs.lookup_written (Nat.lt_succ_self _) c
  rw [addPage, hbase, lookup_append, lookup_inherited, nextStage, hnone, Option.or_none]

end PlanState

/-- **A page is staged** by reading its source and making a stage of the part that it takes. -/
lemma stagePage_ensures {schema : Schema} {earlier : Earlier} {own : Handle} {node : SelectNode}
    {s : PlanState} {mid : Reading → PlanState → Prop} {post : String → PlanState → Prop}
    (hfree : s.pages.lookup own = none)
    (hread : Ensures (readSource earlier true node.source) s mid)
    (hscan : ∀ reading s', mid reading s' → Ensures (scanReading schema earlier { reading with
        selection := .empty, ordering := node.ordering, limit := node.limit,
        offset := node.offset } []) s' fun scan s'' => post s''.nextStage (s''.addPage own scan)) :
    Ensures (stagePage schema earlier own node) s post := by
  refine .run_bind rfl ?_
  rw [hfree]
  refine hread.bind fun reading s' hreading => (hscan reading s' hreading).bind fun scan s'' h => ?_
  intro name s1 hrun
  cases (toPage_run scan own s'').symm.trans hrun
  exact h

/-! ### Chains -/

/-- The reading of a select that asks something of the rows of another reading. -/
def Reading.ask (reading : Reading) (a : Asked) : Reading :=
  { reading with
    selection := a.selection, ordering := a.ordering, limit := a.limit, offset := a.offset }

/-- The reading of a page that has a stage. -/
def Asked.readPage (a : Asked) (name : String) : Reading :=
  { Reading.ofBase (.stage name) with selection := a.selection, ordering := a.ordering }

/-- **A statement about readings that is kept by each step of a chain**: it holds of the base, and
with it of what a filter, a select and a page make of a reading. The graphs in which nodes are read
lie between two others. -/
structure ViewRule (first last : Graph) (base : Source)
    (P : View → Reading → PlanState → Prop) : Prop where
  base : ∀ {g} enclosed, first.Within g → g.Within last →
    Ensures (readSource g.planner enclosed base) .initial (P .base)
  filter : ∀ {view reading s} (c : Condition), P view reading s →
    P (.filter view c) { reading with conditions := reading.conditions ++ [c] } s
  select : ∀ {view reading s} (a : Asked), a.isPaged = false → P view reading s →
    P (.select view a) (reading.ask a) s
  page : ∀ {g view reading s} (a : Asked) (own : Handle), first.Within g → g.Within last →
    a.isPaged = true → P view reading s →
    Ensures (scanReading g.schema g.planner (reading.ask { a with selection := .empty }) []) s
      fun scan s' => P (.select view a) (a.readPage s'.nextStage) (s'.addPage own scan)

section Chains

variable {first last g past : Graph} {base source : Source} {view : View}
  {P : View → Reading → PlanState → Prop} {node : Node} {q : Query}

/-- Nothing is staged at the beginning, so a node is read anew. -/
lemma read_initial {enclosed : Bool} {post : Reading → PlanState → Prop}
    (hnode : (past.push node).Within g)
    (h : Ensures (readNode past past.planner enclosed past.nextHandle node) .initial post) :
    Ensures (readSource g.planner enclosed (.node past.nextHandle)) .initial post := by
  obtain ⟨-, hread, -, -⟩ := hnode.planner_eq
  rw [readSource, hread]
  exact .run_bind rfl h

/-- **The statement holds of the reading of every chain** that others are read from, by induction on
the chain. -/
lemma readView_ensures (hP : ViewRule first last base P) (hv : first.Views base g source view)
    (hlast : g.Within last) :
    Ensures (readSource g.planner true source) .initial (P view) := by
  induction hv with
  | base _ hg => exact hP.base true hg hlast
  | @select g past source view asked hsource hnode ih =>
    have hpast : past.Within last := (Graph.within_push _ _).trans (hnode.trans hlast)
    refine read_initial hnode ?_
    change Ensures (readSelect past.schema past.planner true past.nextHandle
      (asked.node source)) _ _
    rw [readSelect]
    split
    · rename_i hpaged
      change (asked.isPaged && true) = true at hpaged
      have hpage : Ensures
          (stagePage past.schema past.planner past.nextHandle (asked.node source)) .initial
          fun name => P (.select view asked) (asked.readPage name) :=
        stagePage_ensures rfl (ih hpast) fun reading s hreading =>
          hP.page asked past.nextHandle hsource.within hpast (by simpa using hpaged) hreading
      exact hpage.bind fun name s hname => .of_pure hname
    · rename_i hpaged
      change ¬(asked.isPaged && true) = true at hpaged
      refine (ih hpast).bind fun reading s hreading => .of_pure (hP.select asked ?_ hreading)
      simpa using hpaged
  | filter hsource hnode ih =>
    refine read_initial hnode ?_
    have hpast := (Graph.within_push _ _).trans (hnode.trans hlast)
    exact (ih hpast).bind fun reading s hreading => .of_pure (hP.filter _ hreading)

/-- What holds of the reading of a chain that nothing else is read from: a page on top is not
staged. -/
def RootReading (P : View → Reading → PlanState → Prop) (view : View) (reading : Reading)
    (s : PlanState) : Prop :=
  (P view reading s ∧ ∀ source a, view = .select source a → a.isPaged = false) ∨
    ∃ source a inner, view = .select source a ∧ a.isPaged = true ∧ P source inner s ∧
      reading = inner.ask a

/-- A statement that rests on one about chains, which a chain has from the chains on top of it. -/
lemma RootReading.of_imp {fits : View → Prop} {reading : Reading} {s : PlanState}
    (h : RootReading (fun view reading s => fits view → P view reading s) view reading s)
    (hselect : ∀ source a, fits (.select source a) → fits source) (hfits : fits view) :
    RootReading P view reading s := by
  rcases h with ⟨h, htop⟩ | ⟨source, a, inner, rfl, hpaged, h, rfl⟩
  · exact .inl ⟨h hfits, htop⟩
  · tauto

lemma readRoot_ensures (hP : ViewRule first g base P) (hv : first.Views base g source view) :
    Ensures (readSource g.planner false source) .initial (RootReading P view) := by
  cases hv with
  | base _ hg =>
    exact (hP.base false hg (.refl g)).mono fun reading s h =>
      .inl ⟨h, fun _ _ heq => by cases heq⟩
  | @select _ past source inner asked hsource hnode =>
    refine read_initial hnode ?_
    change Ensures (readSelect past.schema past.planner false past.nextHandle
      (asked.node source)) _ _
    rw [readSelect, if_neg (by simp)]
    have hpast := (Graph.within_push _ _).trans hnode
    refine (readView_ensures hP hsource hpast).bind fun reading s hreading => .of_pure ?_
    by_cases hpaged : asked.isPaged
    · tauto
    · refine .inl ⟨hP.select asked (by simpa using hpaged) hreading, fun _ _ heq => ?_⟩
      cases heq
      simpa using hpaged
  | filter hsource hnode =>
    refine read_initial hnode ?_
    have hpast := (Graph.within_push _ _).trans hnode
    refine (readView_ensures hP hsource hpast).bind fun reading s hreading => .of_pure ?_
    exact .inl ⟨hP.filter _ hreading, fun _ _ heq => by cases heq⟩

lemma scan_eq (hnode : (past.push node).Within g) :
    g.planner.scan past.nextHandle [] =
      readSource g.planner false (.node past.nextHandle) >>= fun reading =>
        scanReading g.schema past.planner reading [] := by
  obtain ⟨-, hread, hscan, -⟩ := hnode.planner_eq
  have hschema : g.schema = past.schema := hnode.schema
  rw [readSource, hread, hscan, hschema]
  rfl

/-- **A query whose root is a chain is planned by reading the chain**, with the nodes of a graph
that has grown into the one at hand. -/
lemma plan_views (hbranches : q.branches = []) (hv : first.Views base g q.root view) :
    ∃ past : Graph, past.Within g ∧ q.plan g = readSource g.planner false q.root >>= fun reading =>
        scanReading g.schema past.planner reading [] := by
  obtain ⟨id, root, branches⟩ := q
  cases hbranches
  have hnode : ∀ {past : Graph} {node : Node}, (past.push node).Within g →
      ∃ past' : Graph, past'.Within g ∧ Query.plan g ⟨id, .node past.nextHandle, []⟩ =
        readSource g.planner false (.node past.nextHandle) >>= fun reading =>
          scanReading g.schema past'.planner reading [] :=
    fun {past node} hnode => ⟨past, (Graph.within_push past node).trans hnode, scan_eq hnode⟩
  cases hv with
  | base hbase hg =>
    cases hbase with
    | relation r => exact ⟨.empty g.id g.schema, ⟨rfl, rfl, g.nodes, by simp [Graph.empty]⟩, rfl⟩
    | insert hbase | values hbase => exact hnode (hbase.trans hg)
  | select _ hselect => exact hnode hselect
  | filter _ hfilter => exact hnode hfilter

/-- **The statement of a chain** is made of the SELECT of its reading and the stages before it. -/
lemma toStatement_views {statement : Statement} (hP : ViewRule first g base P)
    (hbranches : q.branches = []) (hv : first.Views base g q.root view)
    (hstatement : q.toStatement g = .ok statement) :
    ∃ (past : Graph) (reading : Reading) (s : PlanState) (scan : Scan) (s' : PlanState),
      past.Within g ∧ RootReading P view reading s ∧
      scanReading g.schema past.planner reading [] s = .ok (scan, s') ∧
      statement = withStages (widenStages s'.required s'.stages) (jsonRows scan.select) := by
  obtain ⟨past, hpast, hplan⟩ := plan_views hbranches hv
  obtain ⟨⟨scan, s'⟩, hrun, hrest⟩ := Except.bind_ok hstatement
  cases hrest
  rw [hplan] at hrun
  obtain ⟨reading, s, hread, hscan⟩ := bind_eq_ok hrun
  exact ⟨past, reading, s, scan, s', hpast, readRoot_ensures hP hv reading s hread, hscan, rfl⟩

end Chains

end StagedSql
