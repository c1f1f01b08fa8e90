import StagedSql.Proofs.Plan.BackwardPlans
import StagedSql.Proofs.Plan.Ledger

/-!
Statements are made of nodes of one graph.

A node is planned through what it reads, writes and compares with, and through the lookups of its
selection if this is shown. A statement is made only if all that is visited are nodes of the graph,
and all writes among them are staged (`Query.visited_of_plan`).
-/

namespace StagedSql

open List

/-! ### Visits -/

/-- What planning a node visits, each with whether its selection is shown. -/
def Node.visits (shown : Bool) : Node → List (Bool × Handle)
  | .select s => s.source.handles.map (false, ·) ++
      if shown then s.selection.handles.map (true, ·) else []
  | .filter source condition =>
    source.handles.map (shown, ·) ++ condition.handles.map (true, ·)
  | .common queries => queries.dropLast.map (true, ·) ++ queries.getLast?.toList.map (shown, ·)
  | node => node.handles.map (true, ·)

/-- **A node is visited when another one is planned**, directly or through others. -/
inductive Graph.Visits (g : Graph) : Bool → Handle → Handle → Prop
  | here (shown : Bool) (h : Handle) : g.Visits shown h h
  | step {shown shown' : Bool} {h k w : Handle} {node : Node} (hnode : g.node h = .ok node)
      (hvisit : (shown', k) ∈ node.visits shown) (hrest : g.Visits shown' k w) :
      g.Visits shown h w

/-- **All that is visited from a node are nodes of the graph**, and the writes are staged. -/
def PlanState.Visited (g : Graph) (s : PlanState) (shown : Bool) (h : Handle) : Prop :=
  ∀ w, g.Visits shown h w → w.graph = g.id ∧
    ∀ node, g.node w = .ok node → node.isMutation = true → w ∈ s.stagedHandles

section Visits

variable {g : Graph} {h w : Handle} {node : Node} {shown : Bool} {s s' : PlanState}

lemma Graph.visited_of_node (hn : g.node h = .ok node)
    (hm : node.isMutation = true → h ∈ s.stagedHandles)
    (hv : ∀ p ∈ node.visits shown, s.Visited g p.1 p.2) : s.Visited g shown h := by
  intro w hw
  cases hw with
  | here =>
    refine ⟨(Graph.Has.lt_size ⟨node, hn⟩).1, fun node' hn' => ?_⟩
    cases hn.symm.trans hn'
    exact hm
  | step hnode hvisit hrest =>
    cases hn.symm.trans hnode
    exact hv _ hvisit w hrest

/-- What is needed for a node is visited. -/
lemma Graph.Reaches.visits (hr : g.Reaches h w) (shown : Bool) : g.Visits shown h w := by
  induction hr generalizing shown with
  | refl h => exact .here shown h
  | @step h input w node hnode hinput _ ih =>
    have hvisit : ∃ shown', (shown', input) ∈ node.visits shown := by
      cases node with
      | common queries =>
        rcases eq_nil_or_concat queries with rfl | ⟨rest, last, rfl⟩
        · cases hinput
        · simpa [Node.visits, Node.inputs, or_comm, exists_or] using hinput
      | _ => simp_all [Node.visits, Node.inputs, Node.handles, exists_or]
    obtain ⟨shown', hvisit⟩ := hvisit
    exact .step hnode hvisit (ih shown')

lemma Graph.Visits.when_shown (hv : g.Visits shown h w) : g.Visits true h w := by
  induction hv with
  | here shown h => exact .here true h
  | @step shown shown' h k w node hnode hvisit hrest ih =>
    have hagain : ∃ shown'', (shown'', k) ∈ node.visits true ∧ g.Visits shown'' k w := by
      cases node with
      | select s =>
        rcases mem_append.mp hvisit with hvisit | hvisit
        · exact ⟨shown', mem_append_left _ hvisit, hrest⟩
        · simp_all
      | filter source condition =>
        rcases mem_append.mp hvisit with hvisit | hvisit
        · obtain ⟨k', hk, heq⟩ := mem_map.mp hvisit
          cases heq
          exact ⟨true, mem_append_left _ (mem_map_of_mem hk), ih⟩
        · exact ⟨shown', mem_append_right _ hvisit, hrest⟩
      | common queries =>
        rcases mem_append.mp hvisit with hvisit | hvisit
        · exact ⟨shown', mem_append_left _ hvisit, hrest⟩
        · obtain ⟨k', hk, heq⟩ := mem_map.mp hvisit
          cases heq
          exact ⟨true, mem_append_right _ (mem_map_of_mem hk), ih⟩
      | insert | update | delete | values => exact ⟨shown', hvisit, hrest⟩
    obtain ⟨shown'', hmem, hrest'⟩ := hagain
    exact .step hnode hmem hrest'

lemma PlanState.Visited.unshown (hv : s.Visited g true h) (shown : Bool) : s.Visited g shown h :=
  fun w hw => hv w hw.when_shown

lemma PlanState.Visited.mono (hv : s.Visited g shown h) (hx : s.stagedHandles ⊆ s'.stagedHandles) :
    s'.Visited g shown h :=
  fun w hw => (hv w hw).imp_right fun hs node hn hm => hx (hs node hn hm)

lemma PlanState.Visited.of_visit (hv : s.Visited g shown h) (hn : g.node h = .ok node) :
    ∀ p ∈ node.visits shown, s.Visited g p.1 p.2 :=
  fun _ hp w hw => hv w (.step hn hp hw)

end Visits

/-! ### The law -/

/-- **All that is visited from staged nodes is planned**, but for writes that are busy: those whose
stages are being made. -/
def visiting (g : Graph) (busy : Handle → Prop) : Plan.Law where
  holds s := (∀ h ∈ s.stagedHandles, ¬ busy h → s.Visited g true h) ∧
    ∀ h ∈ s.pagedHandles, s.Visited g false h
  grows s s' := s.stagedHandles ⊆ s'.stagedHandles
  refl _ := Subset.refl _
  trans h h' := List.Subset.trans h h'

/-- What is left to be visited when a node was read: the queries of the conditions, and those of the
selection if it is shown. -/
def Reading.Leaves (g : Graph) (s : PlanState) (h : Handle) (r : Reading) : Prop :=
  ∀ s' : PlanState, s.stagedHandles ⊆ s'.stagedHandles →
    (∀ k ∈ Condition.handlesOf r.conditions, s'.Visited g true k) →
      s'.Visited g false h ∧
        ((∀ k ∈ r.selection.handles, s'.Visited g true k) → s'.Visited g true h)

/-- Once a node is planned, all that is visited from it is. -/
def visits (g : Graph) (busy : Handle → Prop) : Progress where
  law := visiting g busy
  Done h s := s.Visited g true h
  mono hx hv := hv.mono hx
  quiet := by
    intro s s' hq
    simp only [visiting, PlanState.Visited, PlanState.stagedHandles, PlanState.pagedHandles,
      hq.staged, hq.pages]
    exact ⟨id, Subset.refl _⟩

/-- What planning a node visits, as a law of nodes. -/
def visitedNodes (g : Graph) (busy : Handle → Prop) : NodeLaw where
  law := visiting g busy
  Staged h _ s := s.Visited g true h
  Paged h _ s := s.Visited g false h
  Reads _ source r s := ∀ h ∈ source.handles, r.Leaves g s h
  Scope _ _ := True
  Scans source _ _ _ s := ∀ h ∈ source.handles, s.Visited g true h
  Selects source _ _ s := ∀ h ∈ source.handles, s.Visited g true h

lemma Earlier.Meets.visits {g : Graph} {busy : Handle → Prop} {e : Earlier}
    (he : e.Meets (visitedNodes g busy)) : e.Brings (visits g busy) where
  read enclosed h s := ((he h).read enclosed s).mono fun r _ _ hleaves s' hx hall => by
    rw [Reading.handles, forall_mem_append] at hall
    exact (hleaves h (by simp [Source.handles]) s' hx hall.1).2 hall.2
  scan h scope s := (he h).scan scope s trivial
  subselect h s := (he h).subselect s

section Stages

variable {g past : Graph} {busy : Handle → Prop} {e : Earlier} {own : Handle} {node : Node}
  {s : PlanState} {r : Reading}

/-! ### Writes -/

lemma visiting_links (he : e.Meets (visitedNodes g busy)) (stage : String) (relation : Relation) :
    Plan.Links (visiting g busy) e stage relation (fun _ => True) (fun _ _ => True)
      (fun h s => s.Visited g true h) True where
  known_mono _ h := h
  member_mono _ h := h
  done_mono hx hv := hv.mono hx
  found _ _ := trivial
  child h s := ((he h).stage s).mono fun _ _ _ hv => ⟨trivial, hv⟩
  set _ _ _ _ := .of_run rfl (fun hs => hs) (Subset.refl _) trivial
  within := by
    intro s x hs _ hx
    refine .run_bind rfl (fun hs => hs) (Subset.refl _) (hx.bind fun _ s' _ hv => ?_)
    exact .of_run rfl (fun hs => hs) (Subset.refl _) hv
  pushed h := h

lemma Node.visits_of_mutation (hm : node.isMutation = true) (shown : Bool) :
    node.visits shown = (node.writeHandles ++ node.reverseHandles).map (true, ·) := by
  cases node <;> cases hm <;> simp [Node.visits, Node.handles, Node.writeHandles,
    Node.reverseHandles]

/-- **A write** visits all that it refers to. While this goes on, it is busy. -/
lemma stageWrite_visits (he : e.Meets (visitedNodes g busy))
    (he' : e.Meets (visitedNodes g fun h => busy h ∨ h = own)) (hn : g.node own = .ok node)
    (hm : node.isMutation = true) :
    Plan.Keeps (visiting g busy) (stageWrite past e own node) s
      fun name s' => ∀ n, name = some n → s'.Visited g true own := by
  refine ((writeStatement_asks past.schema node).brings he.visits s).bind
    fun write s1 _ hwritten => ?_
  cases write with
  | none => exact .of_pure (by simp)
  | some write =>
    obtain ⟨statement, relation⟩ := write
    intro hs1 a s' hrun
    change (linkWrite past e s1.nextStage relation node >>= fun _ => pure (some s1.nextStage))
      (s1.addWrite own statement relation) = _ at hrun
    have hx1 : s1.stagedHandles ⊆ (s1.addWrite own statement relation).stagedHandles :=
      subset_cons_self _ _
    have hnoted : (visiting g fun h => busy h ∨ h = own).holds
        (s1.addWrite own statement relation) := by
      refine ⟨fun h hh hb => ?_, fun h hh => (hs1.2 h hh).mono hx1⟩
      rcases mem_cons.mp hh with rfl | hh
      · exact (hb (.inr rfl)).elim
      · exact (hs1.1 h hh fun hbusy => hb (.inl hbusy)).mono hx1
    obtain ⟨_, s2, hlink, hend⟩ := Plan.bind_eq_ok hrun
    obtain rfl : s2 = s' := by cases hend; rfl
    obtain ⟨hs2, hx2, hback⟩ := linkWrite_links (visiting_links he' s1.nextStage relation) trivial
      (fun _ _ _ _ _ _ _ => trivial) hnoted _ _ hlink
    have hx : s1.stagedHandles ⊆ s2.stagedHandles := List.Subset.trans hx1 hx2
    have hown : s2.Visited g true own := by
      refine Graph.visited_of_node hn (fun _ => hx2 mem_cons_self) fun p hp => ?_
      rw [Node.visits_of_mutation hm] at hp
      obtain ⟨h, hh, rfl⟩ := mem_map.mp hp
      exact (mem_append.mp hh).elim (fun hh => (hwritten h hh).mono hx) (hback h)
    refine ⟨⟨fun h hh hb => ?_, hs2.2⟩, hx, fun _ _ => hown⟩
    by_cases h' : h = own
    · rwa [h']
    · exact hs2.1 h hh fun hor => hor.elim hb h'

/-! ### Readings of nodes -/

lemma visited_of_sources {sel : SelectNode} (hn : g.node own = .ok (.select sel))
    (hsource : ∀ h ∈ sel.source.handles, s.Visited g false h) : s.Visited g false own ∧
      ((∀ h ∈ sel.selection.handles, s.Visited g true h) → s.Visited g true own) := by
  have hbelow : ∀ p ∈ sel.source.handles.map (false, ·), s.Visited g p.1 p.2 := by
    simp_all
  constructor
  · exact Graph.visited_of_node hn nofun (forall_mem_append.mpr ⟨hbelow, by simp⟩)
  · intro hselection
    refine Graph.visited_of_node hn nofun (forall_mem_append.mpr ⟨hbelow, fun p hp => ?_⟩)
    grind

lemma leaves_filter {source : Source} {condition : Condition}
    (hn : g.node own = .ok (.filter source condition)) (hr : ∀ h ∈ source.handles, r.Leaves g s h) :
    Reading.Leaves g s own { r with conditions := r.conditions ++ [condition] } := by
  intro s' hx hconditions
  rw [Condition.handlesOf_append, forall_mem_append] at hconditions
  have hcondition : ∀ p ∈ condition.handles.map (true, ·), s'.Visited g p.1 p.2 := by
    intro p hp
    obtain ⟨k, hk, rfl⟩ := mem_map.mp hp
    exact hconditions.2 k (by simpa [Condition.handlesOf] using hk)
  have hown : ∀ shown, (∀ h ∈ source.handles, s'.Visited g shown h) → s'.Visited g shown own := by
    intro shown hsource
    refine Graph.visited_of_node hn nofun (forall_mem_append.mpr ⟨fun p hp => ?_, hcondition⟩)
    obtain ⟨k, hk, rfl⟩ := mem_map.mp hp
    exact hsource k hk
  refine ⟨hown false fun h hh => (hr h hh s' hx hconditions.1).1, fun hselection => ?_⟩
  exact hown true fun h hh => (hr h hh s' hx hconditions.1).2 hselection

lemma leaves_common {queries : List Handle} {last : Handle}
    (hn : g.node own = .ok (.common queries)) (hlast : queries.getLast? = some last)
    (hbefore : ∀ h ∈ queries.dropLast, s.Visited g true h) (hr : r.Leaves g s last) :
    r.Leaves g s own := by
  intro s' hx hconditions
  have hown : ∀ shown, s'.Visited g shown last → s'.Visited g shown own := by
    intro shown hvisited
    refine Graph.visited_of_node hn nofun (forall_mem_append.mpr ⟨fun p hp => ?_, fun p hp => ?_⟩)
    · obtain ⟨k, hk, rfl⟩ := mem_map.mp hp
      exact (hbefore k hk).mono hx
    · simp_all
  obtain ⟨hfalse, htrue⟩ := hr s' hx hconditions
  exact ⟨hown false hfalse, fun hselection => hown true (htrue hselection)⟩

lemma Selection.handles_of_isEmpty {s : Selection} (hs : s.isEmpty = true) : s.handles = [] := by
  obtain ⟨fields, lookups⟩ := s
  have hnil : lookups = [] := by
    rw [Selection.isEmpty, Bool.and_eq_true_iff] at hs
    simpa using hs.2
  rw [Selection.handles, hnil, Lookup.handlesOf]

/-- **A node is read** through what it visits. -/
lemma visits_readRules (he : e.Meets (visitedNodes g busy))
    (he' : e.Meets (visitedNodes g fun h => busy h ∨ h = own)) (hown : ¬ busy own)
    (hn : g.node own = .ok node) : (visitedNodes g busy).ReadRules past e own node where
  before := he
  staged_mono hx hv := hv.mono hx
  scope_mono _ _ := trivial
  scope_nil _ := trivial
  staged hs hmem := hs.1 own (mem_map_of_mem hmem) hown
  paged _ hs hmem := hs.2 own (mem_map_of_mem hmem)
  write hm _ := stageWrite_visits he he' hn hm
  page := by
    rintro sel r s0 s rfl - - - - - hleaves
    refine ((scanReading_asks past.schema _ []).brings he.visits s).bind fun scan s1 hx hall => ?_
    rw [Reading.handles, forall_mem_append] at hall
    have hown := (visited_of_sources hn fun h hh => (hleaves h hh s1 hx hall.1).1).1
    exact .of_run (toPage_run scan own s1)
      (fun hs => ⟨hs.1, forall_mem_cons.mpr ⟨hown, hs.2⟩⟩) (Subset.refl _) hown
  ofRelation _ _ := by rintro h ⟨⟩
  ofStage hv := forall_mem_singleton.mpr fun _ hx _ =>
    ⟨(hv.mono hx).unshown false, fun _ => hv.mono hx⟩
  ofPage := by
    rintro sel name s rfl hpage
    refine forall_mem_singleton.mpr fun s' hx _ => visited_of_sources hn fun h hh => ?_
    exact (hpage.mono hx).of_visit hn (false, h) (mem_append_left _ (mem_map_of_mem hh))
  select := by
    rintro enclosed sel r s rfl - hr
    exact forall_mem_singleton.mpr fun s' hx hc =>
      visited_of_sources hn fun h hh => (hr h hh s' hx hc).1
  filter := by
    rintro enclosed source condition r s rfl hr
    exact forall_mem_singleton.mpr (leaves_filter hn hr)
  common := by
    rintro enclosed queries last r s rfl hlast hbefore hr
    refine forall_mem_singleton.mpr (leaves_common hn hlast (fun h hh => ?_) (hr last (.head _)))
    obtain ⟨_, hv⟩ := hbefore h hh
    exact hv
  values := by
    rintro enclosed columns rows s rfl
    have hown : ∀ (s' : PlanState) shown, s'.Visited g shown own := fun s' shown =>
      Graph.visited_of_node hn (by simp [Node.isMutation]) (by simp [Node.visits, Node.handles])
    exact forall_mem_singleton.mpr fun s' _ _ => ⟨hown s' false, fun _ => hown s' true⟩
  key := by
    intro r s column _ hempty hr
    -- the key takes the place of a selection that names nothing
    refine forall_mem_singleton.mpr fun s' hx hc => ?_
    obtain ⟨hfalse, htrue⟩ := forall_mem_singleton.mp hr s' hx hc
    exact ⟨hfalse, fun _ => htrue (by simp [Selection.handles_of_isEmpty hempty])⟩
  scan := by
    intro r s0 s scope _ hr _
    refine ((scanReading_asks past.schema r scope).brings he.visits s).mono fun _ s' hx hall => ?_
    rw [Reading.handles, forall_mem_append] at hall
    exact forall_mem_singleton.mpr ((forall_mem_singleton.mp hr s' hx hall.1).2 hall.2)
  select_of_scan h := h

lemma visiting_staged {s' : PlanState} {name : String} (hv : s.Visited g true own)
    (hs : (visiting g busy).holds s) (hstaged : s'.staged = (own, name) :: s.staged)
    (hpages : s'.pages = s.pages) : (visiting g busy).holds s' := by
  have hx : s.stagedHandles ⊆ s'.stagedHandles := by
    rw [PlanState.stagedHandles, PlanState.stagedHandles, hstaged]
    exact subset_cons_self _ _
  refine ⟨?_, ?_⟩
  · rw [PlanState.stagedHandles, hstaged]
    exact forall_mem_cons.mpr ⟨fun _ => hv.mono hx, fun h hh hb => (hs.1 h hh hb).mono hx⟩
  · rw [PlanState.pagedHandles, hpages]
    exact fun h hh => (hs.2 h hh).mono hx

/-- **A node is staged** through what it visits. -/
lemma visits_meetsAt (he : e.Meets (visitedNodes g busy))
    (he' : e.Meets (visitedNodes g fun h => busy h ∨ h = own)) (hown : ¬ busy own)
    (hn : g.node own = .ok node) :
    (Earlier.ofNode past e node).MeetsAt (visitedNodes g busy) own := by
  refine ofNode_meets (visits_readRules he he' hown hn) (fun {_ scan s} hl => ?_) ?_
  · have hown := forall_mem_singleton.mp hl
    exact .of_run (toStage_run scan own s) (fun hs => visiting_staged hown hs rfl rfl)
      (subset_cons_self _ _) (hown.mono (subset_cons_self _ _))
  · rintro queries names last s rfl hall -
    have heach : ∀ k ∈ queries, s.Visited g true k := fun k hk => by
      obtain ⟨_, -, hv⟩ := exists_of_forall₂_right hall.flip k hk
      exact hv
    have hown : s.Visited g true own := by
      refine Graph.visited_of_node hn nofun (forall_mem_append.mpr ⟨fun p hp => ?_, fun p hp => ?_⟩)
      · obtain ⟨k, hk, rfl⟩ := mem_map.mp hp
        exact heach k (dropLast_subset _ hk)
      · grind
    exact .of_run rfl (fun hs => visiting_staged hown hs rfl rfl) (subset_cons_self _ _)
      (hown.mono (subset_cons_self _ _))

end Stages

/-! ### Graphs and queries -/

/-- **Planning a node visits nodes of the graph only**, whichever later writes are busy. By
induction on the nodes. -/
theorem planner_visits {past g : Graph} (hw : past.Within g) {busy : Handle → Prop}
    (hbusy : ∀ h, busy h → past.size ≤ h.index) :
    past.planner.Meets (visitedNodes g busy) := by
  obtain ⟨id, schema, nodes⟩ := past
  induction nodes generalizing busy with
  | nil => exact .none _
  | cons node rest ih =>
    let past : Graph := ⟨id, schema, rest⟩
    change (past.push node).Within g at hw
    have hpast : past.Within g := (past.within_push node).trans hw
    have hlater : ∀ h, busy h → past.size < h.index := hbusy
    have he : past.planner.Meets (visitedNodes g busy) :=
      ih hpast fun h hb => (hlater h hb).le
    have he' : past.planner.Meets (visitedNodes g fun h => busy h ∨ h = past.nextHandle) := by
      refine ih hpast ?_
      rintro h (hb | rfl)
      · exact (hlater h hb).le
      · exact le_refl past.size
    have hown : ¬ busy past.nextHandle := fun hb => lt_irrefl _ (hlater _ hb)
    have hn : g.node past.nextHandle = .ok node := hw.node_eq
    exact .push (fun h _ => he h)
      (visits_meetsAt he he' hown hn)

namespace Query

variable {g : Graph} {q : Query}

lemma plan_visits (g : Graph) (q : Query) (s : PlanState) :
    Plan.Keeps (visiting g fun _ => False) (q.plan g) s
      fun _ s' => ∀ h ∈ q.handles, s'.Visited g true h := by
  have he : g.planner.Meets (visitedNodes g fun _ => False) :=
    planner_visits (.refl g) fun _ hb => hb.elim
  have hbranches := branches_keep (s := s) (fun _ _ _ hx hv => hv.mono hx) (fun h => (he h).stage)
    q.branches
  refine hbranches.bind fun _ s1 _ hvisited => ?_
  rw [handles]
  cases q.root with
  | relation id =>
    have hnone := (Earlier.Meets.none (visitedNodes g fun _ => False)).visits
    refine ((scanReading_asks g.schema _ []).brings hnone s1).mono fun _ _ hx _ h hh => ?_
    exact (hvisited h hh).mono hx
  | node h =>
    refine ((he h).scan [] s1 trivial).mono fun _ _ hx hroot => ?_
    exact forall_mem_append.mpr ⟨hroot, fun k hk => (hvisited k hk).mono hx⟩

/-- **All that a query visits is planned.** -/
lemma visited_of_plan {scan : Scan} {st : PlanState} (hrun : q.plan g .initial = .ok (scan, st)) :
    ∀ h ∈ q.handles, st.Visited g true h := by
  have hstart : (visiting g fun _ => False).holds .initial :=
    ⟨fun h hh => (not_mem_nil hh).elim, fun h hh => (not_mem_nil hh).elim⟩
  exact (q.plan_visits g .initial hstart scan st hrun).2.2

/-- **All that a query with a statement visits are nodes of its graph.** -/
theorem local_of_toStatement {s : Statement} (hs : q.toStatement g = .ok s) :
    ∀ h ∈ q.handles, ∀ k, g.Visits true h k → k.graph = g.id := by
  obtain ⟨⟨scan, st⟩, hrun, -⟩ := Except.bind_ok hs
  exact fun h hh k hk => (visited_of_plan hrun h hh k hk).1

end Query

end StagedSql
