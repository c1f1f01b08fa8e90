import StagedSql.Plan.Statement
import StagedSql.Proofs.Plan.ReferredNodes

/-!
Laws for the nodes of a graph.

A law of planning comes with what it says of a node. To show that all nodes of a graph are planned
in accordance with it, it is enough to say what becomes of a reading at each kind of node, and that
the new stages keep the law.
-/

namespace StagedSql

open Plan

variable {past : Graph} {s : PlanState} {e : Earlier} {own : Handle} {node : Node}

/-! ### What a write is linked to -/

/-- The inserts that refer back to a node. -/
def Node.reverseHandles : Node → List Handle
  | .insert _ _ reverse => reverse.flatMap (·.2)
  | _ => []

/-- **How a law deals with the rows that a write is linked to**: those that are staged already, and
those that refer back to it and are staged with it around them. -/
structure Plan.Links (law : Law) (earlier : Earlier) (stage : String) (relation : Relation)
    (Known : PlanState → Prop) (Member : String → PlanState → Prop)
    (Done : Handle → PlanState → Prop) (Bare : Prop) : Prop where
  known_mono : ∀ {s s'}, law.grows s s' → Known s → Known s'
  member_mono : ∀ {name s s'}, law.grows s s' → Member name s → Member name s'
  done_mono : ∀ {h s s'}, law.grows s s' → Done h s → Done h s'
  found : ∀ {h name s}, law.holds s → (h, name) ∈ s.staged → Member name s
  child : ∀ h s, Keeps law (earlier.stage h) s fun name s' => Member name s' ∧ Done h s'
  set : ∀ {s members} column, Known s → (∀ m ∈ members, Member m s) → (members = [] → Bare) →
    Keeps law (setWritten stage column members) s fun _ _ => True
  within : ∀ {s : PlanState} {x : Plan PUnit} {hs : List Handle}, Known s →
    Keeps law x { s with parents := ⟨stage, relation.primaryKey⟩ :: s.parents }
      (fun _ s' => ∀ h ∈ hs, Done h s') →
    Keeps law (do
        modify fun st => { st with parents := ⟨stage, relation.primaryKey⟩ :: st.parents }
        x
        modify fun st => { st with parents := st.parents.tail }) s fun _ s' => ∀ h ∈ hs, Done h s'
  pushed : ∀ {s : PlanState}, Known s →
    Known { s with parents := ⟨stage, relation.primaryKey⟩ :: s.parents }

section Links

variable {law : Law} {earlier : Earlier} {stage : String} {relation : Relation}
  {Known : PlanState → Prop} {Member : String → PlanState → Prop} {Done : Handle → PlanState → Prop}
  {Bare : Prop} (hl : Links law earlier stage relation Known Member Done Bare)

include hl

/-- The rows that forward columns lead to, by induction on the columns. -/
lemma linkForward_links (entries : List (String × PayloadValue)) (hk : Known s) :
    Keeps law (linkForward past stage relation entries) s fun _ _ => True := by
  induction entries generalizing s with
  | nil => exact .of_pure trivial
  | cons entry rest ih =>
    obtain ⟨column, v⟩ := entry
    cases v with
    | value v => exact ih hk
    | parentKey => exact ih hk
    | query h =>
      rw [linkForward]
      split
      · refine .lift_bind fun found _ => ?_
        split
        · refine .lift_bind fun node _ => ?_
          split
          · refine .of_holds fun hs => .get_bind ?_
            split
            · rename_i name hlookup
              have hmember := hl.found hs (mem_of_lookup hlookup)
              exact (hl.set column hk (by simpa using hmember) (by simp)).bind
                fun _ _ hg _ => ih (hl.known_mono hg hk)
            · exact ih hk
          · exact ih hk
        · exact ih hk
      · exact ih hk

lemma stageChildren_links (column : String) (children : List Handle) (hk : Known s)
    (hbare : children = [] → Bare) :
    Keeps law (do setWritten stage column (← children.mapM earlier.stage)) s
      fun _ s' => ∀ h ∈ children, Done h s' := by
  have hall : Keeps law (children.mapM earlier.stage) s fun names s' =>
      List.Forall₂ (fun h name => Member name s' ∧ Done h s') children names :=
    .mapM (fun _ _ _ _ hg h => ⟨hl.member_mono hg h.1, hl.done_mono hg h.2⟩)
      fun h _ s1 _ => hl.child h s1
  refine hall.bind fun names s1 hg hnames => ?_
  refine (hl.set column (hl.known_mono hg hk) (fun m hm => ?_) fun hempty => ?_).mono
    fun _ s2 hg2 _ h hh => ?_
  · obtain ⟨_, -, h⟩ := exists_of_forall₂_right hnames m hm
    exact h.1
  · simp_all
  · obtain ⟨_, -, hdone⟩ := exists_of_forall₂_right hnames.flip h hh
    exact hl.done_mono hg2 hdone.2

lemma stageReverse_links (reverse : List (String × List Handle)) (hk : Known s)
    (hbare : ∀ e ∈ reverse, e.2 = [] → Bare) :
    Keeps law (stageReverse earlier stage relation reverse) s
      fun _ s' => ∀ h ∈ reverse.flatMap (·.2), Done h s' := by
  rw [stageReverse]
  split
  · refine hl.within hk ?_
    have hall : Keeps law (reverse.forM fun e => do
        setWritten stage e.1 (← e.2.mapM earlier.stage))
        { s with parents := ⟨stage, relation.primaryKey⟩ :: s.parents }
        fun _ s' => ∀ e ∈ reverse, ∀ h ∈ e.2, Done h s' :=
      .forM (fun _ _ _ hg h k hk => hl.done_mono hg (h k hk)) fun e he s1 hg =>
        stageChildren_links hl e.1 e.2 (hl.known_mono hg (hl.pushed hk)) (hbare e he)
    refine hall.mono fun _ s' _ hdone h hh => ?_
    obtain ⟨e, he, hmem⟩ := List.mem_flatMap.mp hh
    exact hdone e he h hmem
  · rename_i hempty
    have hnil : reverse = [] := by simpa using hempty
    exact .of_pure (by simp [hnil])

/-- **What a write is linked to** is staged. -/
lemma linkWrite_links (hk : Known s)
    (hbare : ∀ id payload reverse, node = .insert id payload reverse →
      ∀ e ∈ reverse, e.2 = [] → Bare) :
    Keeps law (linkWrite past earlier stage relation node) s
      fun _ s' => ∀ h ∈ node.reverseHandles, Done h s' := by
  have hnone : Keeps law (pure ⟨⟩ : Plan PUnit) s
      fun _ s' => ∀ h ∈ ([] : List Handle), Done h s' :=
    .of_pure (by simp)
  cases node with
  | insert id payload reverse =>
    have hreverse := hbare id payload reverse rfl
    cases payload with
    | values entries =>
      exact (linkForward_links hl entries hk).bind fun _ _ hg _ =>
        stageReverse_links hl reverse (hl.known_mono hg hk) hreverse
    | query h => exact stageReverse_links hl reverse hk hreverse
  | update id payload condition =>
    cases payload with
    | values entries =>
      exact (linkForward_links hl entries hk).mono fun _ _ _ _ => by simp [Node.reverseHandles]
    | query h => exact hnone
  | _ => exact hnone

end Links

/-! ### Nodes that are planned in accordance with a law -/

/-- The SELECT of a node becomes its stage. -/
def Scan.toStage (own : Handle) (scan : Scan) : Plan String := do
  let name ← freshStage
  addStage ⟨name, .select scan.select, scan.relation, some scan.qualifier, scan.stage⟩
  setStage own name
  return name

/-- The SELECT of the rows that a select takes becomes a stage. -/
def Scan.toPage (own : Handle) (scan : Scan) : Plan String := do
  let name ← freshStage
  inheritWritten scan.stage name
  addStage ⟨name, .select scan.select, scan.relation, some scan.qualifier, scan.stage⟩
  modify fun st => { st with pages := (own, name) :: st.pages }
  return name

/-- What is noted of the rows that a stage leads to, for another stage that is read from it. -/
def inherited (written : List ((String × String) × List String)) (base : Option String)
    (name : String) : List ((String × String) × List String) :=
  match base with
  | none => []
  | some base => (written.filter (·.1.1 == base)).map fun e => ((name, e.1.2), e.2)

namespace PlanState

variable {s' : PlanState} {stage : Stage}

def nextStage (s : PlanState) : String := numberedName 't' (s.names.stages + 1)

def add (s : PlanState) (stage : Stage) : PlanState :=
  { s with
    names := { s.names with stages := s.names.stages + 1 }
    stages := s.stages ++ [stage] }

/-- The state after a write has got a stage. -/
def addWrite (s : PlanState) (own : Handle) (statement : Statement) (relation : Relation) :
    PlanState :=
  { s.add ⟨s.nextStage, statement, relation, none, none⟩ with
    staged := (own, s.nextStage) :: s.staged }

def stageOf (s : PlanState) (scan : Scan) : Stage :=
  ⟨s.nextStage, .select scan.select, scan.relation, some scan.qualifier, scan.stage⟩

/-- The state after the SELECT of a node has become its stage. -/
def addScan (s : PlanState) (own : Handle) (scan : Scan) : PlanState :=
  { s.add (s.stageOf scan) with staged := (own, s.nextStage) :: s.staged }

/-- The state with the stage of the page that a select takes. -/
def addPage (s : PlanState) (own : Handle) (scan : Scan) : PlanState :=
  { s.add (s.stageOf scan) with
    written := inherited s.written scan.stage s.nextStage ++ s.written
    pages := (own, s.nextStage) :: s.pages }

/-- **One more stage** under the next name, which is noted for a node: as its own stage, or as the
rows that a select takes. It leads to no rows but those that its base leads to. -/
structure Adds (own : Handle) (stage : Stage) (s s' : PlanState) : Prop where
  name : stage.name = s.nextStage
  names : s'.names = { s.names with stages := s.names.stages + 1 }
  stages : s'.stages = s.stages ++ [stage]
  staged : ∀ e ∈ s'.staged, e ∈ s.staged ∨ e = (own, stage.name)
  pages : ∀ e ∈ s'.pages, e ∈ s.pages ∨ e = (own, stage.name)
  written : ∃ base, s'.written = inherited s.written base stage.name ++ s.written
  required : s'.required = s.required
  parents : s'.parents = s.parents

lemma Adds.count (h : s.Adds own stage s') : s'.names.stages = s.names.stages + 1 := by
  rw [h.names]

lemma addWrite_adds (s : PlanState) (own : Handle) (statement : Statement) (relation : Relation) :
    s.Adds own ⟨s.nextStage, statement, relation, none, none⟩
      (s.addWrite own statement relation) :=
  ⟨rfl, rfl, rfl, fun _ he => (List.mem_cons.mp he).symm, fun _ => .inl, ⟨none, rfl⟩, rfl, rfl⟩

lemma addPage_adds (s : PlanState) (own : Handle) (scan : Scan) :
    s.Adds own (s.stageOf scan) (s.addPage own scan) :=
  ⟨rfl, rfl, rfl, fun _ => .inl, fun _ he => (List.mem_cons.mp he).symm, ⟨_, rfl⟩, rfl, rfl⟩

end PlanState

lemma mem_inherited {written : List ((String × String) × List String)} {base : Option String}
    {name : String} {e : (String × String) × List String} (he : e ∈ inherited written base name) :
    e.1.1 = name ∧ ∃ e' ∈ written, e'.2 = e.2 := by
  cases base with
  | none => simp [inherited] at he
  | some base =>
    rw [inherited] at he
    grind

lemma toStage_run (scan : Scan) (own : Handle) (s : PlanState) :
    scan.toStage own s = .ok (s.nextStage, s.addScan own scan) :=
  rfl

lemma toPage_run (scan : Scan) (own : Handle) (s : PlanState) :
    scan.toPage own s = .ok (s.nextStage, s.addPage own scan) := by
  rw [Scan.toPage, PlanState.addPage, PlanState.stageOf]
  cases scan.stage <;> rfl

section Adding

variable {law : Law}

lemma Scan.toStage_adds {scan : Scan} {name : String} {s' : PlanState}
    (h : scan.toStage own s = .ok (name, s')) :
    name = s.nextStage ∧ s.Adds own (s.stageOf scan) s' := by
  cases (toStage_run scan own s).symm.trans h
  exact ⟨rfl, rfl, rfl, rfl, fun _ he => (List.mem_cons.mp he).symm, fun _ => .inl, ⟨none, rfl⟩,
    rfl, rfl⟩

lemma Scan.toPage_adds {scan : Scan} {name : String} {s' : PlanState}
    (h : scan.toPage own s = .ok (name, s')) :
    name = s.nextStage ∧ s.Adds own (s.stageOf scan) s' := by
  cases (toPage_run scan own s).symm.trans h
  exact ⟨rfl, s.addPage_adds own scan⟩

/-- **A SELECT becomes the stage of a node, or that of the rows which a select takes.** -/
lemma Scan.keeps_adds {scan : Scan} {post : String → PlanState → Prop}
    (h : ∀ s', law.holds s → s.Adds own (s.stageOf scan) s' →
      law.holds s' ∧ law.grows s s' ∧ post s.nextStage s') :
    Keeps law (scan.toStage own) s post ∧ Keeps law (scan.toPage own) s post := by
  refine ⟨fun hs name s' hrun => ?_, fun hs name s' hrun => ?_⟩
  · obtain ⟨rfl, ha⟩ := toStage_adds hrun
    exact h s' hs ha
  · obtain ⟨rfl, ha⟩ := toPage_adds hrun
    exact h s' hs ha

/-- **A write becomes a stage**, and then what it is linked to. -/
lemma stageWrite_keeps {mid : Option (Statement × Relation) → PlanState → Prop}
    {post : Option String → PlanState → Prop}
    (hwrite : Keeps law (writeStatement past.schema e node) s mid)
    (hnone : ∀ s1, law.grows s s1 → mid none s1 → post none s1)
    (hsome : ∀ statement relation s1, law.holds s1 → law.grows s s1 →
      mid (some (statement, relation)) s1 → law.holds (s1.addWrite own statement relation) ∧
        law.grows s (s1.addWrite own statement relation) ∧
        Keeps law (linkWrite past e s1.nextStage relation node) (s1.addWrite own statement relation)
          fun _ => post (some s1.nextStage)) :
    Keeps law (stageWrite past e own node) s post := by
  intro hs name s' hrun
  obtain ⟨written, s1, hwritten, hrest⟩ := bind_eq_ok hrun
  obtain ⟨hs1, hg, hmid⟩ := hwrite hs written s1 hwritten
  cases written with
  | none =>
    cases hrest
    exact ⟨hs1, hg, hnone _ hg hmid⟩
  | some pair =>
    obtain ⟨statement, relation⟩ := pair
    obtain ⟨hs2, hg2, hlink⟩ := hsome statement relation s1 hs1 hg hmid
    change (linkWrite past e s1.nextStage relation node >>= fun _ => pure (some s1.nextStage))
      (s1.addWrite own statement relation) = _ at hrest
    obtain ⟨hs3, hg3, hpost⟩ := (hlink.bind fun _ _ _ hpost => .of_pure hpost) hs2 name s' hrest
    exact ⟨hs3, law.trans hg2 hg3, hpost⟩

end Adding

/-- **A law and what it says of nodes.** -/
structure NodeLaw where
  law : Law
  /-- The node has the stage with this name. -/
  Staged : Handle → String → PlanState → Prop
  /-- The rows that the select takes are in the stage with this name. -/
  Paged : Handle → String → PlanState → Prop
  /-- Rows of the source are read in this way, for other nodes if the flag is set. -/
  Reads : Bool → Source → Reading → PlanState → Prop
  /-- A SELECT may be made in this scope. -/
  Scope : List String → PlanState → Prop
  /-- The SELECT was made, from the first state to the second, in this scope. -/
  Scans : Source → List String → PlanState → Scan → PlanState → Prop
  /-- The sub-select was made, from the first state to the second. -/
  Selects : Source → PlanState → Statement → PlanState → Prop

variable {N : NodeLaw}

/-- A node is planned in accordance with the law. -/
structure Earlier.MeetsAt (N : NodeLaw) (h : Handle) (e : Earlier) : Prop where
  stage : ∀ s, Keeps N.law (e.stage h) s (N.Staged h)
  read : ∀ enclosed s, Keeps N.law (e.read enclosed h) s (N.Reads enclosed (.node h))
  scan : ∀ scope s, N.Scope scope s → Keeps N.law (e.scan h scope) s (N.Scans (.node h) scope s)
  subselect : ∀ s, Keeps N.law (e.subselect h) s (N.Selects (.node h) s)

/-- All nodes are planned in accordance with the law. -/
def Earlier.Meets (N : NodeLaw) (e : Earlier) : Prop := ∀ h, e.MeetsAt N h

/-- **How a law deals with the reading of a node**, given how those before it are planned. -/
structure NodeLaw.ReadRules (N : NodeLaw) (past : Graph) (e : Earlier) (own : Handle)
    (node : Node) : Prop where
  before : e.Meets N
  staged_mono : ∀ {h name s s'}, N.law.grows s s' → N.Staged h name s → N.Staged h name s'
  scope_mono : ∀ {scope s s'}, N.law.grows s s' → N.Scope scope s → N.Scope scope s'
  scope_nil : ∀ s, N.Scope [] s
  staged : ∀ {name s}, N.law.holds s → (own, name) ∈ s.staged → N.Staged own name s
  paged : ∀ {sel name s}, node = .select sel → N.law.holds s → (own, name) ∈ s.pages →
    N.Paged own name s
  write : ∀ {s}, node.isMutation = true → s.staged.lookup own = none →
    Keeps N.law (stageWrite past e own node) s fun name s' =>
      ∀ n, name = some n → N.Staged own n s'
  page : ∀ {sel r s0 s}, node = .select sel → sel.isPaged = true → s0.pages.lookup own = none →
    N.law.holds s0 → readSource e true sel.source s0 = .ok (r, s) → N.law.grows s0 s →
    N.Reads true sel.source r s → Keeps N.law (scanReading past.schema e
      ⟨r.base, .empty, sel.ordering, sel.limit, sel.offset, r.conditions⟩ [] >>= Scan.toPage own)
      s (N.Paged own)
  ofRelation : ∀ {enclosed} id s, N.Reads enclosed (.relation id) (.ofBase (.relation id)) s
  ofStage : ∀ {enclosed name s}, N.Staged own name s →
    N.Reads enclosed (.node own) (.ofBase (.stage name)) s
  ofPage : ∀ {sel name s}, node = .select sel → N.Paged own name s →
    N.Reads true (.node own) ⟨.stage name, sel.selection, sel.ordering, none, none, []⟩ s
  select : ∀ {enclosed sel r s}, node = .select sel → (sel.isPaged && enclosed) = false →
    N.Reads true sel.source r s → N.Reads enclosed (.node own)
      ⟨r.base, sel.selection, sel.ordering, sel.limit, sel.offset, r.conditions⟩ s
  filter : ∀ {enclosed source condition r s}, node = .filter source condition →
    N.Reads true source r s → N.Reads enclosed (.node own)
      ⟨r.base, r.selection, r.ordering, r.limit, r.offset, r.conditions ++ [condition]⟩ s
  common : ∀ {enclosed queries last r s}, node = .common queries → queries.getLast? = some last →
    (∀ h ∈ queries.dropLast, ∃ name, N.Staged h name s) → N.Reads enclosed (.node last) r s →
    N.Reads enclosed (.node own) r s
  values : ∀ {enclosed columns rows} s, node = .values columns rows →
    N.Reads enclosed (.node own) (.ofBase (.values columns rows (columns.map fun _ => none))) s
  key : ∀ {r s} column, node.isMutation = true → r.selection.isEmpty = true →
    N.Reads false (.node own) r s → N.Reads false (.node own)
      ⟨r.base, .ofFields [column], r.ordering, r.limit, r.offset, r.conditions⟩ s
  scan : ∀ {r s0 s scope}, N.law.grows s0 s → N.Reads false (.node own) r s → N.Scope scope s →
    Keeps N.law (scanReading past.schema e r scope) s (N.Scans (.node own) scope s0)
  select_of_scan : ∀ {s scan s'}, N.Scans (.node own) [] s scan s' →
    N.Selects (.node own) s (.select scan.select) s'

section Readings

lemma readSource_meets (hr : N.ReadRules past e own node) (enclosed : Bool) (source : Source) :
    Keeps N.law (readSource e enclosed source) s (N.Reads enclosed source) := by
  cases source with
  | relation id => exact .of_pure (hr.ofRelation id s)
  | node h => exact (hr.before h).read enclosed s

lemma readSelect_meets {sel : SelectNode} (hr : N.ReadRules past e own (.select sel))
    (enclosed : Bool) :
    Keeps N.law (readSelect past.schema e enclosed own sel) s (N.Reads enclosed (.node own)) := by
  rw [readSelect]
  split
  · rename_i hpaged
    have hpage : Keeps N.law (stagePage past.schema e own sel) s (N.Paged own) := by
      refine .of_holds fun hs => .get_bind ?_
      cases hlookup : s.pages.lookup own with
      | some name => exact .of_pure (hr.paged rfl hs (mem_of_lookup hlookup))
      | none =>
        refine (readSource_meets hr true sel.source).with_run.bind fun reading s1 hg h => ?_
        exact hr.page rfl (Bool.and_eq_true_iff.mp hpaged).1 hlookup hs h.2 hg h.1
    obtain rfl : enclosed = true := (Bool.and_eq_true_iff.mp hpaged).2
    exact hpage.bind fun _ _ _ h => .of_pure (hr.ofPage rfl h)
  · rename_i hpaged
    exact (readSource_meets hr true sel.source).bind fun _ _ _ h =>
      .of_pure (hr.select rfl (Bool.eq_false_iff.mpr hpaged) h)

variable (hr : N.ReadRules past e own node)

include hr

lemma readNode_meets (enclosed : Bool) (hnew : s.staged.lookup own = none) :
    Keeps N.law (readNode past e enclosed own node) s (N.Reads enclosed (.node own)) := by
  cases node with
  | select sel => exact readSelect_meets hr enclosed
  | insert _ _ _ | update _ _ _ | delete _ _ =>
    refine (hr.write rfl hnew).bind fun name s1 _ hname => ?_
    cases name with
    | none => exact .of_throw
    | some name => exact .of_pure (hr.ofStage (hname name rfl))
  | filter source condition =>
    exact (readSource_meets hr true source).bind fun _ _ _ h => .of_pure (hr.filter rfl h)
  | common queries =>
    rw [readNode]
    cases hlast : queries.getLast? with
    | none => exact .of_throw
    | some last =>
      have hfirst : Keeps N.law (queries.dropLast.forM fun h => discard (e.stage h)) s
          fun _ s' => ∀ h ∈ queries.dropLast, ∃ name, N.Staged h name s' :=
        .forM (fun _ _ _ hg h => h.imp fun _ hn => hr.staged_mono hg hn) fun h _ s1 _ =>
          ((hr.before h).stage s1).bind fun name _ _ hn => .of_pure ⟨name, hn⟩
      refine hfirst.bind fun _ s1 _ hall => ?_
      refine ((hr.before last).read enclosed s1).mono fun r s2 hg h => ?_
      exact hr.common rfl hlast (fun k hk => (hall k hk).imp fun _ hn => hr.staged_mono hg hn) h
  | values columns rows => exact .of_pure (hr.values s rfl)

/-- **A node as a reading.** -/
lemma readAt_meets (enclosed : Bool) :
    Keeps N.law (readAt past e enclosed own node) s (N.Reads enclosed (.node own)) := by
  refine .get_bind ?_
  cases hlookup : s.staged.lookup own with
  | some name =>
    exact .of_holds fun hs => .of_pure (hr.ofStage (hr.staged hs (mem_of_lookup hlookup)))
  | none => exact readNode_meets hr enclosed hlookup

/-- **The SELECT of a node.** -/
lemma scanAt_meets {scope : List String} (hs : N.Scope scope s) :
    Keeps N.law (scanAt past e own node scope) s (N.Scans (.node own) scope s) :=
  (readAt_meets hr false).bind fun _ _ hg h => hr.scan hg h (hr.scope_mono hg hs)

/-- **The sub-select of a node.** -/
lemma subselectAt_meets :
    Keeps N.law (subselectAt past e own node) s (N.Selects (.node own) s) := by
  refine (readAt_meets hr false).bind fun reading s1 hg h => ?_
  have hscan : ∀ r, N.Reads false (.node own) r s1 → Keeps N.law (do
      let scan ← scanReading past.schema e r []
      return Statement.select scan.select) s1 (N.Selects (.node own) s) :=
    fun r h => (hr.scan hg h (hr.scope_nil s1)).bind fun _ _ _ hs => .of_pure (hr.select_of_scan hs)
  split
  · rename_i hkey
    rw [Bool.and_eq_true] at hkey
    refine .lift_bind fun relation _ => ?_
    cases relation with
    | none => exact hscan reading h
    | some id => exact .lift_bind fun r _ => hscan _ (hr.key _ hkey.1 hkey.2 h)
  · exact hscan reading h

end Readings

/-! ### Nodes as stages -/

/-- **How a law deals with the stage of a node**, given how those before it are planned. -/
structure NodeLaw.StageRules (N : NodeLaw) (past : Graph) (e : Earlier) (own : Handle)
    (node : Node) : Prop where
  each : ∀ h s, Keeps N.law (e.stage h) s (N.Staged h)
  mono : ∀ {h name s s'}, N.law.grows s s' → N.Staged h name s → N.Staged h name s'
  found : ∀ {name s}, N.law.holds s → (own, name) ∈ s.staged → N.Staged own name s
  write : ∀ {s}, node.isMutation = true → s.staged.lookup own = none →
    Keeps N.law (stageWrite past e own node) s fun name s' =>
      ∀ n, name = some n → N.Staged own n s'
  scan : ∀ {s}, node.isMutation = false → s.staged.lookup own = none →
    Keeps N.law (scanAt past e own node [] >>= Scan.toStage own) s (N.Staged own)
  last : ∀ {queries names last s}, node = .common queries →
    List.Forall₂ (fun h name => N.Staged h name s) queries names → names.getLast? = some last →
    Keeps N.law (setStage own last) s fun _ => N.Staged own last

lemma writeStatement_some {schema : Schema} (hm : node.isMutation = true) :
    Ensures (writeStatement schema e node) s fun written _ => written ≠ none := by
  cases node <;> cases hm <;>
    exact .bind_any fun _ _ => .bind_any fun _ _ => .of_pure (Option.some_ne_none _)

lemma stageWrite_some (hm : node.isMutation = true) :
    Ensures (stageWrite past e own node) s fun name _ => name ≠ none := by
  refine (writeStatement_some hm).bind fun written s1 hw => ?_
  cases written with
  | none => exact (hw rfl).elim
  | some pair =>
    exact .bind_any fun _ _ => .bind_any fun _ _ => .bind_any fun _ _ => .bind_any fun _ _ =>
      .of_pure (Option.some_ne_none _)

lemma stageNode_meets (hr : N.StageRules past e own node) (hnew : s.staged.lookup own = none) :
    Keeps N.law (stageNode past e own node) s (N.Staged own) := by
  cases node with
  | common queries =>
    have hall : Keeps N.law (queries.mapM e.stage) s fun names s' =>
        List.Forall₂ (fun h name => N.Staged h name s') queries names :=
      .mapM (fun _ _ _ _ hg h => hr.mono hg h) fun h _ s1 _ => hr.each h s1
    refine hall.bind fun names s1 _ hnames => ?_
    cases hlast : names.getLast? with
    | none => exact .of_throw
    | some last => exact (hr.last rfl hnames hlast).bind fun _ _ _ h => .of_pure h
  | select _ | filter _ _ | values _ _ => exact hr.scan rfl hnew
  | insert _ _ _ | update _ _ _ | delete _ _ =>
    have hsome := (hr.write rfl hnew).and (stageWrite_some rfl)
    refine hsome.bind fun name s1 _ hname => ?_
    cases name with
    | none => exact (hname.2 rfl).elim
    | some name => exact .of_pure (hname.1 name rfl)

/-- **A node as a stage.** -/
lemma stageAt_meets (hr : N.StageRules past e own node) :
    Keeps N.law (stageAt past e own node) s (N.Staged own) := by
  refine .get_bind ?_
  cases hlookup : s.staged.lookup own with
  | some name => exact .of_holds fun hs => .of_pure (hr.found hs (mem_of_lookup hlookup))
  | none => exact stageNode_meets hr hlookup

/-! ### All nodes -/

/-- How a node is planned, given how those before it are. -/
def Earlier.ofNode (past : Graph) (e : Earlier) (node : Node) : Earlier where
  stage h := stageAt past e h node
  read enclosed h := readAt past e enclosed h node
  scan h scope := scanAt past e h node scope
  subselect h := subselectAt past e h node

/-- **One more node** is planned with those before it, if its SELECT and the last one of several
queries may become its stage. -/
lemma ofNode_meets (hr : N.ReadRules past e own node)
    (hscan : ∀ {s0 scan s}, N.Scans (.node own) [] s0 scan s →
      Keeps N.law (scan.toStage own) s (N.Staged own))
    (hlast : ∀ {queries names last s}, node = .common queries →
      List.Forall₂ (fun h name => N.Staged h name s) queries names → names.getLast? = some last →
      Keeps N.law (setStage own last) s fun _ => N.Staged own last) :
    (Earlier.ofNode past e node).MeetsAt N own where
  stage _ := stageAt_meets ⟨fun h => (hr.before h).stage, hr.staged_mono, hr.staged, hr.write,
    fun _ _ => (scanAt_meets hr (hr.scope_nil _)).bind fun _ _ _ h => hscan h, hlast⟩
  read enclosed _ := readAt_meets hr enclosed
  scan _ _ hscope := scanAt_meets hr hscope
  subselect _ := subselectAt_meets hr

lemma Earlier.Meets.push (he : ∀ h, h ≠ past.nextHandle → e.MeetsAt N h)
    (hnode : (Earlier.ofNode past e node).MeetsAt N past.nextHandle) :
    (e.push past node).Meets N := by
  intro h
  by_cases hown : h = past.nextHandle
  · subst hown
    refine ⟨fun s => ?_, fun enclosed s => ?_, fun scope s hs => ?_, fun s => ?_⟩ <;>
      simp only [Earlier.push, if_true]
    exacts [hnode.stage s, hnode.read enclosed s, hnode.scan scope s hs, hnode.subselect s]
  · have hold := he h hown
    refine ⟨fun s => ?_, fun enclosed s => ?_, fun scope s hs => ?_, fun s => ?_⟩ <;>
      simp only [Earlier.push, hown, if_false]
    exacts [hold.stage s, hold.read enclosed s, hold.scan scope s hs, hold.subselect s]

/-- The branches of a query are planned one after the other. -/
lemma branches_keep {law : Law} {P : Handle → PlanState → Prop} {s : PlanState}
    (hP : ∀ h s s', law.grows s s' → P h s → P h s')
    (he : ∀ h s, Keeps law (e.stage h) s fun _ => P h) (hs : List Handle) :
    Keeps law (hs.forM fun h => discard (e.stage h)) s fun _ s' => ∀ h ∈ hs, P h s' := by
  refine .forM hP fun h _ s1 _ => ?_
  change Keeps law (e.stage h >>= fun _ => pure PUnit.unit) s1 _
  exact (he h s1).bind fun _ _ _ hstage => .of_pure hstage

lemma Earlier.Meets.none (N : NodeLaw) : Earlier.none.Meets N :=
  fun _ => ⟨fun _ => .of_throw, fun _ _ => .of_throw, fun _ _ _ => .of_throw, fun _ => .of_throw⟩

/-- **All nodes of a graph**, by induction on the list of nodes. -/
theorem planner_meets {g : Graph}
    (hnode : ∀ newer node rest e, g.nodes = newer ++ node :: rest → Earlier.Meets N e →
      (Earlier.ofNode ⟨g.id, g.schema, rest⟩ e node).MeetsAt N
        (Graph.nextHandle ⟨g.id, g.schema, rest⟩)) : g.planner.Meets N := by
  have hall : ∀ nodes newer, g.nodes = newer ++ nodes →
      (Earlier.ofNodes g.id g.schema nodes).Meets N := by
    intro nodes
    induction nodes with
    | nil => exact fun _ _ => .none N
    | cons node rest ih =>
      intro newer hnodes
      have hrest := ih (newer ++ [node]) (by simpa using hnodes)
      exact .push (fun h _ => hrest h) (hnode newer node rest _ hnodes hrest)
  exact hall g.nodes [] rfl

/-! ### Laws that say nothing of single nodes -/

def Plan.Law.alone (law : Law) : NodeLaw where
  law := law
  Staged _ _ _ := True
  Paged _ _ _ := True
  Reads _ _ _ _ := True
  Scope _ _ := True
  Scans _ _ _ _ _ := True
  Selects _ _ _ _ := True

/-- The nodes before are planned in accordance with a law. -/
structure Earlier.Obeys (law : Law) (e : Earlier) : Prop where
  stage : ∀ h, Plan.Obeys law (e.stage h)
  read : ∀ enclosed h, Plan.Obeys law (e.read enclosed h)
  scan : ∀ h scope, Plan.Obeys law (e.scan h scope)
  subselect : ∀ h, Plan.Obeys law (e.subselect h)

section Alone

variable {law : Law}

/-- What a write is linked to, for a law that speaks of nothing but stages. -/
lemma Earlier.Obeys.links (he : e.Obeys law)
    (hholds : ∀ {s s' : PlanState}, s'.stages = s.stages → s'.staged = s.staged →
      s'.pages = s.pages → law.holds s → law.holds s')
    (hgrows : ∀ {s s' : PlanState}, s'.stages = s.stages → s'.staged = s.staged →
      s'.pages = s.pages → law.grows s s') (stage : String) (relation : Relation) :
    Links law e stage relation (fun _ => True) (fun _ _ => True) (fun _ _ => True) True where
  known_mono _ h := h
  member_mono _ h := h
  done_mono _ h := h
  found _ _ := trivial
  child h s := (he.stage h s).mono fun _ _ _ _ => ⟨trivial, trivial⟩
  set _ _ _ _ := .of_run rfl (hholds rfl rfl rfl) (hgrows rfl rfl rfl) trivial
  within _ hx := .run_bind rfl (hholds rfl rfl rfl) (hgrows rfl rfl rfl) <|
    hx.bind fun _ _ _ hdone =>
      .of_run rfl (hholds rfl rfl rfl) (hgrows rfl rfl rfl) hdone
  pushed h := h

variable (hquiet : ∀ {s s' : PlanState}, s.Quiet s' →
  (law.holds s → law.holds s') ∧ law.grows s s')

lemma Earlier.Meets.obeys (he : e.Meets law.alone) : e.Obeys law :=
  ⟨fun h => (he h).stage, fun enclosed h => (he h).read enclosed,
    fun h scope s => (he h).scan scope s trivial, fun h => (he h).subselect⟩

lemma Earlier.Obeys.meets (he : e.Obeys law) : e.Meets law.alone :=
  fun h => ⟨he.stage h, fun enclosed => he.read enclosed h, fun scope s _ => he.scan h scope s,
    he.subselect h⟩

include hquiet

lemma Plan.Asks.obeys {α : Type} {hs : List Handle} {x : Earlier → Plan α} (hx : Asks hs x)
    (he : e.Obeys law) : Plan.Obeys law (x e) := by
  have hbrings : e.Brings ⟨law, fun _ _ => True, fun _ _ => trivial, hquiet⟩ :=
    ⟨fun enclosed h s => (he.read enclosed h s).mono fun _ _ _ _ _ _ _ => trivial,
      fun h scope s => (he.scan h scope s).mono fun _ _ _ _ _ _ => trivial,
      fun h s => (he.subselect h s).mono fun _ _ _ _ _ _ => trivial⟩
  exact fun s => (hx.brings hbrings s).forget

/-- **A law alone** is kept if the stages of writes and those of pages keep it. -/
lemma Earlier.Obeys.readRules (he : e.Obeys law)
    (hwrite : ∀ {s}, node.isMutation = true → s.staged.lookup own = .none →
      Keeps law (stageWrite past e own node) s fun _ _ => True)
    (hpage : ∀ {sel r s0 s}, node = .select sel → sel.isPaged = true →
      s0.pages.lookup own = .none → readSource e true sel.source s0 = .ok (r, s) →
      law.holds s0 → law.grows s0 s → Keeps law (scanReading past.schema e
        ⟨r.base, .empty, sel.ordering, sel.limit, sel.offset, r.conditions⟩ [] >>= Scan.toPage own)
        s fun _ _ => True) : law.alone.ReadRules past e own node where
  before := he.meets
  staged_mono _ _ := trivial
  scope_mono _ _ := trivial
  scope_nil _ := trivial
  staged _ _ := trivial
  paged _ _ _ := trivial
  write hm hnew := (hwrite hm hnew).mono fun _ _ _ _ _ _ => trivial
  page hsel hp hnew hs0 hrun hg _ := hpage hsel hp hnew hrun hs0 hg
  ofRelation _ _ := trivial
  ofStage _ := trivial
  ofPage _ _ := trivial
  select _ _ _ := trivial
  filter _ _ := trivial
  common _ _ _ _ := trivial
  values _ _ := trivial
  key _ _ _ _ := trivial
  scan _ _ _ := (scanReading_asks past.schema _ _).obeys hquiet he _
  select_of_scan _ := trivial

end Alone

namespace Graph

variable {past g : Graph} {node : Node}

/-- **A node is planned with the nodes before it**, whatever is added later. By induction on the
nodes that are added. -/
lemma Within.planner_eq (h : (past.push node).Within g) :
    g.planner.stage past.nextHandle = stageAt past past.planner past.nextHandle node ∧
      (∀ enclosed, g.planner.read enclosed past.nextHandle =
        readAt past past.planner enclosed past.nextHandle node) ∧
      (∀ scope, g.planner.scan past.nextHandle scope =
        scanAt past past.planner past.nextHandle node scope) ∧
      g.planner.subselect past.nextHandle =
        subselectAt past past.planner past.nextHandle node := by
  obtain ⟨newer, hn⟩ := h.nodes
  have hid : g.id = past.id := h.id
  have hschema : g.schema = past.schema := h.schema
  rw [planner, hid, hschema, hn]
  clear h hn
  induction newer with
  | nil => exact ⟨if_pos rfl, fun _ => if_pos rfl, fun _ => if_pos rfl, if_pos rfl⟩
  | cons n rest ih =>
    have hne := nextHandle_ne past node rest
    obtain ⟨hstage, hread, hscan, hsub⟩ := ih
    exact ⟨(if_neg hne).trans hstage, fun enclosed => (if_neg hne).trans (hread enclosed),
      fun scope => (if_neg hne).trans (hscan scope), (if_neg hne).trans hsub⟩

lemma Within.planner_of_has {h : Handle} (hw : past.Within g) (hh : past.Has h) :
    (∀ enclosed, past.planner.read enclosed h = g.planner.read enclosed h) ∧
      past.planner.subselect h = g.planner.subselect h := by
  obtain ⟨node, hn⟩ := hh
  obtain ⟨p, hp, rfl⟩ := exists_of_node hn
  obtain ⟨-, hread, -, hsub⟩ := hp.planner_eq
  obtain ⟨-, hread', -, hsub'⟩ := (hp.trans hw).planner_eq
  simp_all

/-! ### How nodes are read -/

/-- **How rows of a source may be read in a state**: those of a write and of a node that has a stage
are in that stage, as those of a page may be, and all others are read through the nodes below. Of
several queries the last one is read after the others. -/
inductive Reads (g : Graph) : PlanState → Source → Reading → Prop
  | relation (s : PlanState) (id : RelationId) : Reads g s (.relation id) (.ofBase (.relation id))
  | stage {s : PlanState} {h : Handle} {node : Node} {name : String} (hn : g.node h = .ok node)
      (hs : s.staged.lookup h = some name ∨ node.isMutation = true) :
    Reads g s (.node h) (.ofBase (.stage name))
  | page {s : PlanState} {h : Handle} {sel : SelectNode} (hn : g.node h = .ok (.select sel))
      (hs : s.staged.lookup h = none) (name : String) :
    Reads g s (.node h) ⟨.stage name, sel.selection, sel.ordering, none, none, []⟩
  | select {s : PlanState} {h : Handle} {sel : SelectNode} {r : Reading}
      (hn : g.node h = .ok (.select sel)) (hs : s.staged.lookup h = none)
      (hr : Reads g s sel.source r) :
    Reads g s (.node h)
      ⟨r.base, sel.selection, sel.ordering, sel.limit, sel.offset, r.conditions⟩
  | filter {s : PlanState} {h : Handle} {source : Source} {condition : Condition} {r : Reading}
      (hn : g.node h = .ok (.filter source condition)) (hs : s.staged.lookup h = none)
      (hr : Reads g s source r) :
    Reads g s (.node h)
      ⟨r.base, r.selection, r.ordering, r.limit, r.offset, r.conditions ++ [condition]⟩
  | common {s s1 : PlanState} {h last : Handle} {queries : List Handle} {r : Reading}
      (hn : g.node h = .ok (.common queries)) (hs : s.staged.lookup h = none)
      (hlast : queries.getLast? = some last) (hr : Reads g s1 (.node last) r) :
    Reads g s (.node h) r
  | values {s : PlanState} {h : Handle} {columns : List String} {rows : List (List Value)}
      (hn : g.node h = .ok (.values columns rows)) (hs : s.staged.lookup h = none) :
    Reads g s (.node h) (.ofBase (.values columns rows (columns.map fun _ => none)))

section Reads

variable (he : ∀ enclosed h s, Ensures (e.read enclosed h) s fun r _ => g.Reads s (.node h) r)

include he

lemma readSource_reads (enclosed : Bool) (source : Source) :
    Ensures (readSource e enclosed source) s fun r _ => g.Reads s source r := by
  cases source with
  | relation id => exact .of_pure (.relation s id)
  | node h => exact he enclosed h s

lemma readAt_reads (hn : g.node own = .ok node) (enclosed : Bool) :
    Ensures (readAt past e enclosed own node) s fun r _ => g.Reads s (.node own) r := by
  refine .run_bind rfl ?_
  cases hs : s.staged.lookup own with
  | some name => exact .of_pure (.stage hn (.inl hs))
  | none =>
    change Ensures (readNode past e enclosed own node) s _
    cases node with
    | select sel =>
      rw [readNode, readSelect]
      split
      · exact .bind_any fun name _ => .of_pure (.page hn hs name)
      · exact (readSource_reads he true sel.source).bind fun _ _ h => .of_pure (.select hn hs h)
    | insert _ _ _ | update _ _ _ | delete _ _ =>
      refine .bind_any fun name _ => ?_
      cases name with
      | none => exact .of_throw
      | some name => exact .of_pure (.stage hn (.inr rfl))
    | filter source condition =>
      exact (readSource_reads he true source).bind fun _ _ h => .of_pure (.filter hn hs h)
    | common queries =>
      rw [readNode]
      cases hlast : queries.getLast? with
      | none => exact .of_throw
      | some last =>
        exact .bind_any fun _ s1 => (he enclosed last s1).mono fun _ _ h => .common hn hs hlast h
    | values columns rows => exact .of_pure (.values hn hs)

end Reads

/-- **All nodes are read so**, by induction on the list of nodes. -/
lemma Within.reads (hw : past.Within g) (enclosed : Bool) (h : Handle) (s : PlanState) :
    Ensures (past.planner.read enclosed h) s fun r _ => g.Reads s (.node h) r := by
  obtain ⟨id, schema, nodes⟩ := past
  induction nodes generalizing enclosed h s with
  | nil => exact .of_throw
  | cons node rest ih =>
    let past : Graph := ⟨id, schema, rest⟩
    change (past.push node).Within g at hw
    have hbefore := fun enclosed h s => ih enclosed h s ((within_push past node).trans hw)
    change Ensures ((past.planner.push past node).read enclosed h) s _
    simp only [Earlier.push]
    split
    · rename_i hown
      subst hown
      exact readAt_reads hbefore hw.node_eq enclosed
    · exact hbefore enclosed h s

end Graph

/-! ### Compiled queries -/

/-- Whether a query is built and compiled without an error. -/
def Build.compiles (x : Build Query) (g : Graph) : Bool :=
  match x g with
  | (.ok q, g') => (q.compile g' .numbered).toBool
  | (.error _, _) => false

lemma Build.exists_of_compiles {x : Build Query} {g : Graph} (h : x.compiles g = true) :
    ∃ q g' rendered, x g = (.ok q, g') ∧ q.compile g' .numbered = .ok rendered := by
  rcases hx : x g with ⟨result, g'⟩
  rw [Build.compiles, hx] at h
  cases result with
  | error e => cases h
  | ok q =>
    dsimp only at h
    cases hc : q.compile g' .numbered with
    | error e =>
      rw [hc] at h
      cases h
    | ok rendered => exact ⟨q, g', rendered, rfl, hc⟩

end StagedSql
