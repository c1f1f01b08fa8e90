import StagedSql.Proofs.Plan.BackwardPlans

/-!
Queries in order.

Queries are run in order by a node that names them, or by taking each as a branch of those before.
The nodes that are added for the first way have stages of their own, under names that the others
have already: all else goes alike (`sequences_agree`).
-/

namespace StagedSql

open List Plan Workspace

variable {first past g : Graph} {h : Handle} {outside : Handle → Prop}

/-- The handle of a node that a graph does not have yet. -/
def Graph.Lacks (g : Graph) (h : Handle) : Prop := h.graph = g.id ∧ g.size ≤ h.index

lemma Graph.Within.lacks_nextHandle (hw : first.Within past) : first.Lacks past.nextHandle :=
  ⟨hw.id, hw.size_le⟩

lemma Graph.Within.lacks (hw : first.Within g) (hl : g.Lacks h) : first.Lacks h :=
  ⟨hl.1.trans hw.id, hw.size_le.trans hl.2⟩

lemma Graph.Sees.not_lacks (hs : g.Sees outside h) (hw : g.Within first) : ¬ first.Lacks h := by
  intro hl
  have hlt := hs.own (hl.1.trans hw.id)
  exact absurd (hw.lacks hl).2 (Nat.not_le.mpr hlt)

/-! ### Nodes with stages of their own -/

namespace Plan

variable {α β γ : Type} {kept free free' : Handle → Prop} {own : Handle}
  {R : PlanState → PlanState → Prop} {y : Plan α}

lemma Relates.fewer {x : Plan α} (h : Relates R (PlanState.Like kept free) x y)
    (hf : ∀ h, free' h → free h) : Relates R (PlanState.Like kept free') x y := by
  refine h.mono ?_
  rintro s _ ⟨staged, rfl, hkept, hfree⟩
  exact ⟨staged, rfl, hkept, fun h hh => hfree h (hf h hh)⟩

lemma Relates.stageOf_bind {f : Option String → Plan α} (hown : free own)
    (h : Relates (PlanState.Like kept free) R (f none) y) :
    Relates (PlanState.Like kept free) R (stageOf? own >>= f) y := by
  rintro s _ ⟨staged, rfl, hkept, hfree⟩
  change Matches R (f (s.staged.lookup own) s) _
  rw [hfree own hown]
  exact h _ _ ⟨staged, rfl, hkept, hfree⟩

/-- A node that is not kept may have a stage in one of the states only. -/
lemma Relates.setStage_pure (hown : ¬ kept own) (hf : ∀ h, free' h → free h ∧ h ≠ own)
    (name : String) :
    Relates (PlanState.Like kept free) (PlanState.Like kept free') (setStage own name)
      (pure ⟨⟩) := by
  rintro s _ ⟨staged, rfl, hkept, hfree⟩
  refine .ok _ ⟨staged, rfl, fun h hh => ?_, fun h hh => ?_⟩
  · grind
  · grind

/-- Results that are collected on one side are dropped on the other one. -/
lemma Relates.mapM_forM {R' : PlanState → PlanState → Prop} {f f' : α → Plan β} {l : List α}
    {k : List β → Plan γ} {y : Plan γ} (h : ∀ a ∈ l, Relates R R (f a) (f' a))
    (hk : ∀ bs : List β, bs.length = l.length → Relates R R' (k bs) y) :
    Relates R R' (l.mapM f >>= k) ((l.forM fun a => discard (f' a)) >>= fun _ => y) := by
  induction l generalizing k with
  | nil => exact hk [] rfl
  | cons a rest ih =>
    have hmap : ((a :: rest).mapM f >>= k) =
        f a >>= fun b => rest.mapM f >>= fun bs => k (b :: bs) := by
      simp only [mapM_cons, bind_assoc, pure_bind]
    have hfor : (((a :: rest).forM fun a => discard (f' a)) >>= fun _ => y) =
        f' a >>= fun _ => (rest.forM fun a => discard (f' a)) >>= fun _ => y := by
      change (((f' a >>= fun _ => pure PUnit.unit) >>= fun _ => _) >>= _) = _
      simp only [bind_assoc, pure_bind]
    rw [hmap, hfor]
    refine .bind (h a (by simp)) fun b _ => ih (fun a' ha => h a' (by simp [ha])) fun bs hbs => ?_
    exact hk (b :: bs) (by simp [hbs])

end Plan

/-! ### Plans of queries -/

lemma Query.plan_eq (g : Graph) (q : Query) :
    q.plan g = (q.branches.forM fun h => discard (g.planner.stage h)) >>= fun _ =>
      Query.plan g ⟨q.graph, q.root, []⟩ := rfl

/-- A query with a node as root is staged, with its branches, and then the next one is planned. -/
lemma Query.plan_branch (g : Graph) (q p : Query) :
    (q.branch p).plan g =
      ((q.branches ++ q.root.handles).forM fun h => discard (g.planner.stage h)) >>= fun _ =>
        p.plan g := by
  have happend : ((q.branches ++ q.root.handles) ++ p.branches).forM
      (fun h => discard (g.planner.stage h)) =
      (q.branches ++ q.root.handles).forM (fun h => discard (g.planner.stage h)) >>= fun _ =>
        p.branches.forM fun h => discard (g.planner.stage h) := forM_append
  rw [Query.plan_eq g (q.branch p), Query.branch, happend, bind_assoc]
  rfl

section StandIns

variable {next larger larger' : Graph} {q : Query}

/-- What is seen is planned alike in a larger graph, if nodes that were added later have stages. -/
lemma Graph.Backward.planner_alike_lacks (hg : g.Backward outside) (hfirst : g.Within first)
    (hpast : past.Within g) (hlarger : past.Within larger) :
    larger.planner.Alike (g.Sees outside) first.Lacks (past.Sees outside) past.planner :=
  (hg.of_within hpast).planner_alike_within hlarger (fun _ hs => hs.mono hpast)
    fun _ hs => (hs.mono hpast).not_lacks hfirst

/-- A node that was added later to run queries in order is staged as each of them is. It gets the
stage of the last one. -/
lemma stage_common {queries : List Handle} (hg : g.Backward outside) (hfirst : g.Within first)
    (hpast : first.Within past) (hnode : (past.push (.common queries)).Within next)
    (hlarger : next.Within larger) (hne : queries ≠ []) (hq : ∀ k ∈ queries, g.Sees outside k) :
    Relates (PlanState.Like (g.Sees outside) first.Lacks)
      (PlanState.Like (g.Sees outside) next.Lacks) (discard (larger.planner.stage past.nextHandle))
      (queries.forM fun h => discard (g.planner.stage h)) := by
  have hown : first.Lacks past.nextHandle := hpast.lacks_nextHandle
  have hlater : ∀ k, next.Lacks k → first.Lacks k ∧ k ≠ past.nextHandle := by
    intro k hk
    have hlack := hnode.lacks hk
    refine ⟨(hpast.trans (past.within_push _)).lacks hlack, ?_⟩
    rintro rfl
    exact absurd hlack.2 (Nat.not_succ_le_self past.size)
  have hplanner := hg.planner_alike_lacks hfirst (.refl g) (hfirst.trans hpast)
  rw [(hnode.trans hlarger).planner_sameAt.stage, ← bind_pure_unit (x := List.forM _ _)]
  change Relates _ _ (stageAt past past.planner past.nextHandle (.common queries) >>=
    fun _ => pure PUnit.unit) _
  rw [stageAt, bind_assoc]
  refine .stageOf_bind hown ?_
  rw [stageNode, bind_assoc]
  refine .mapM_forM (fun k hk => (hplanner.node k (hq k hk)).stage) fun names hlength => ?_
  split
  · rename_i hlast
    rw [getLast?_eq_none_iff.mp hlast] at hlength
    exact (hne (length_eq_zero_iff.mp hlength.symm)).elim
  · rename_i last hlast
    have hset : Relates (PlanState.Like (g.Sees outside) first.Lacks)
        (PlanState.Like (g.Sees outside) next.Lacks) (setStage past.nextHandle last)
        (pure ⟨⟩) :=
      .setStage_pure (fun hs => hs.not_lacks hfirst hown) hlater last
    exact hset.bind fun _ _ => .of_pure PUnit.unit

/-- **A node that stands for a query is staged** like its branches and its root. -/
lemma stage_standIn (hg : g.Backward outside) (hfirst : g.Within first)
    (hnext : first.Within next) (hlarger : next.Within larger)
    (hq : ∀ h ∈ q.handles, g.Sees outside h) (hstand : q.StandIn first next h)
    {root : Handle} (hroot : q.root = .node root) :
    Relates (PlanState.Like (g.Sees outside) first.Lacks)
      (PlanState.Like (g.Sees outside) next.Lacks) (discard (larger.planner.stage h))
      ((q.branches ++ [root]).forM fun h => discard (g.planner.stage h)) := by
  have hseen : ∀ k ∈ q.branches ++ [root], g.Sees outside k := by
    intro k hk
    refine hq k ?_
    rw [Query.handles, hroot]
    simpa [Source.handles, or_comm] using hk
  cases hstand with
  | root hbranches hstand =>
    rw [hroot] at hstand
    cases hstand
    rw [hbranches]
    refine Relates.fewer ?_ fun k hk => hnext.lacks hk
    have hw := hfirst.trans (hnext.trans hlarger)
    have hone := (hg.planner_alike_lacks hfirst (.refl g) hw).node h (hseen h (by simp))
    have hstage : Alike (g.Sees outside) first.Lacks (discard (larger.planner.stage h))
        (discard (g.planner.stage h)) :=
      .bind hone.stage fun _ _ => .of_pure _
    simp_all
  | common hpast hstand hnode =>
    rw [hroot] at hstand
    cases hstand
    exact stage_common hg hfirst hpast hnode hlarger (by simp) hseen

/-- **A node that stands for a root is read** and scanned as the root is. -/
lemma read_root {root : Source} (hg : g.Backward outside) (hfirst : g.Within first)
    (hpast : first.Within past) (hlarger : past.Within larger) (hlarger' : g.Within larger')
    (hroot : ∀ k ∈ root.handles, g.Sees outside k) (hstand : root.StandIn first past h) :
    Alike (g.Sees outside) first.Lacks
      (larger.planner.read false h >>= fun r => scanReading g.schema larger'.planner r [])
      (Query.plan g ⟨g.id, root, []⟩) := by
  cases hstand with
  | node =>
    have hsees := hroot h (.head _)
    have hw := hfirst.trans (hpast.trans hlarger)
    change Alike _ _ _ (g.planner.scan h [])
    by_cases hh : g.Has h
    · obtain ⟨node, hn⟩ := hh
      obtain ⟨p, hp, rfl⟩ := Graph.exists_of_node hn
      have hbefore : p.Within g := (p.within_push node).trans hp
      have hsame := hp.planner_sameAt
      have hread := ((hg.planner_alike_lacks hfirst (.refl g) hw).node _ hsees).read false
      rw [hsame.read] at hread
      rw [hsame.scan]
      rw [hbefore.schema]
      refine hread.bind fun r hr => ?_
      rw [(hw.planner_of_sees hsees).read, hsame.read] at hr
      have hscan := hg.planner_alike_lacks hfirst hbefore (hbefore.trans hlarger')
      exact (scanReading_asks p.schema r []).alike hscan (hg.handles_readAt hp false r hr)
    · rw [(hw.planner_of_sees hsees).read, (Graph.planner_unknown hh).read,
        (Graph.planner_unknown hh).scan]
      exact fun _ _ _ => .error _
  | @select p id hp hnode =>
    rw [(hnode.trans hlarger).planner_sameAt.read]
    change Alike _ _ (readAt p p.planner false p.nextHandle
      (.select (.ofSource (.relation id) .empty)) >>= _) _
    rw [readAt, bind_assoc]
    refine .stageOf_bind hp.lacks_nextHandle ?_
    exact scanBase_alike larger'.planner .none g.schema (.relation id) []

/-- **A node that stands for a query is read** and scanned as the query is planned. -/
lemma read_standIn (hg : g.Backward outside) (hfirst : g.Within first) (hnext : first.Within next)
    (hlarger : next.Within larger) (hlarger' : g.Within larger')
    (hq : ∀ h ∈ q.handles, g.Sees outside h) (hstand : q.StandIn first next h) :
    Alike (g.Sees outside) first.Lacks
      (larger.planner.read false h >>= fun r => scanReading g.schema larger'.planner r [])
      (q.plan g) := by
  rw [Query.handles, forall_mem_append] at hq
  rw [Query.plan_eq]
  cases hstand with
  | root hbranches hstand =>
    rw [hbranches]
    exact read_root hg hfirst hnext hlarger hlarger' hq.1 hstand
  | @common past r hpast hstand hnode =>
    have hw := hfirst.trans hpast
    rw [(hnode.trans hlarger).planner_sameAt.read]
    change Alike _ _ (readAt past past.planner false past.nextHandle
      (.common (q.branches ++ [r])) >>= _) _
    rw [readAt, bind_assoc]
    refine .stageOf_bind hpast.lacks_nextHandle ?_
    rw [readNode, getLast?_concat, dropLast_concat]
    rw [bind_assoc]
    refine .bind (.forM fun k hk => ?_) fun _ _ =>
      read_root hg hfirst hpast (.refl past) hlarger' hq.1 hstand
    have hone := (hg.planner_alike_lacks hfirst (.refl g) hw).node k (hq.2 k hk)
    exact .bind hone.stage fun _ _ => .of_pure _

lemma scan_eq_read {node : Node} (hpast : g.Within past) (hnode : (past.push node).Within next) :
    next.planner.scan past.nextHandle [] = next.planner.read false past.nextHandle >>= fun r =>
        scanReading g.schema past.planner r [] := by
  rw [hnode.planner_sameAt.scan, hnode.planner_sameAt.read, ← hpast.schema]
  rfl

/-- **A node that stands for a query is scanned** as the query is planned. -/
lemma scan_standIn (hg : g.Backward outside) (hnext : g.Within next)
    (hq : ∀ h ∈ q.handles, g.Sees outside h) (hstand : q.StandIn g next h) :
    Alike (g.Sees outside) g.Lacks (next.planner.scan h []) (q.plan g) := by
  have hfresh : ∀ {past : Graph} {node : Node}, g.Within past → (past.push node).Within next →
      q.StandIn g next past.nextHandle →
      Alike (g.Sees outside) g.Lacks (next.planner.scan past.nextHandle []) (q.plan g) := by
    intro past node hpast hnode hstand
    rw [scan_eq_read hpast hnode]
    exact read_standIn hg (.refl g) hnext (.refl next) hpast hq hstand
  cases hstand with
  | root hbranches hroot =>
    obtain ⟨graph, root, branches⟩ := q
    cases hroot with
    | node =>
      have hsees := hq h (mem_append_left _ (.head _))
      rw [Query.plan_eq, hbranches]
      exact ((hg.planner_alike_lacks (.refl g) (.refl g) hnext).node h hsees).scan []
    | select hpast hnode => exact hfresh hpast hnode (.root hbranches (.select hpast hnode))
  | common hpast hroot hnode => exact hfresh hpast hnode (.common hpast hroot hnode)

lemma readNode_common_cons (past : Graph) (e : Earlier) (own h k : Handle) (handles : List Handle) :
    readNode past e false own (.common (h :: k :: handles)) =
      discard (e.stage h) >>= fun _ => readNode past e false own (.common (k :: handles)) := by
  obtain ⟨last, hlast⟩ : ∃ last, (k :: handles).getLast? = some last :=
    ⟨_, getLast?_eq_some_getLast (cons_ne_nil k handles)⟩
  rw [readNode, readNode, getLast?_cons_cons, hlast]
  simp

/-- **Queries that are run in order are planned like branches.** By induction on the queries. -/
lemma common_alike {rest : List Query} {handles : List Handle} (hg : g.Backward outside)
    (hfirst : g.Within first) (hpast : past.Within larger)
    (hstands : Query.StandIns first past (q :: rest) handles)
    (hq : ∀ p ∈ q :: rest, ∀ h ∈ p.handles, g.Sees outside h)
    (hroots : ∀ p ∈ (q :: rest).dropLast, ∃ h, p.root = .node h) (own : Handle) :
    Relates (PlanState.Like (g.Sees outside) first.Lacks)
      (PlanState.Like (g.Sees outside) past.Lacks)
      (readNode larger larger.planner false own (.common handles) >>= fun r =>
        scanReading g.schema larger.planner r [])
      ((rest.foldl Query.branch q).plan g) := by
  induction rest generalizing q first handles with
  | nil =>
    obtain - | ⟨hmid, hstand, hnil⟩ := hstands
    cases hnil
    have hqueries := hq q mem_cons_self
    have hw := hfirst.trans (hmid.trans hpast)
    exact Relates.fewer (read_standIn hg hfirst hmid hpast hw hqueries hstand)
      fun k hk => hmid.lacks hk
  | cons p rest ih =>
    obtain ⟨hqueries, hrest⟩ := forall_mem_cons.mp hq
    obtain ⟨⟨root, hroot⟩, hroots⟩ := forall_mem_cons.mp hroots
    obtain - | ⟨hmid, hstand, hmore⟩ := hstands
    have hfirst' := hfirst.trans hmid
    have hbefore := hmore.within.trans hpast
    obtain ⟨k, more, rfl⟩ := hmore.exists_cons
    rw [Query.foldl_branch_cons, Query.plan_branch, hroot, readNode_common_cons, bind_assoc]
    exact .bind (stage_standIn hg hfirst hmid hbefore hqueries hstand hroot) fun _ _ =>
      ih hfirst' hmore hrest hroots

end StandIns

/-- **Queries that are run in order are compiled like branches.** -/
lemma common_compile {q : Query} {rest : List Query} {handles : List Handle}
    (hg : g.Backward outside) (hstands : Query.StandIns g past (q :: rest) handles)
    (hq : ∀ p ∈ q :: rest, ∀ h ∈ p.handles, g.Sees outside h)
    (hroots : ∀ p ∈ (q :: rest).dropLast, ∃ h, p.root = .node h) (placeholder : Placeholder) :
    (⟨past.id, .node past.nextHandle, []⟩ : Query).compile (past.push (.common handles))
      placeholder = (rest.foldl Query.branch q).compile g placeholder := by
  have hw := hstands.within
  have hplans : Relates (PlanState.Like (g.Sees outside) g.Lacks)
      (PlanState.Like (g.Sees outside) past.Lacks)
      ((past.push (.common handles)).planner.scan past.nextHandle [])
      ((rest.foldl Query.branch q).plan g) := by
    rw [(Graph.Within.refl (past.push (.common handles))).planner_sameAt.scan]
    change Relates _ _ (readAt past past.planner false past.nextHandle (.common handles) >>=
      fun r => scanReading past.schema past.planner r []) _
    rw [readAt, bind_assoc, hw.schema]
    exact .stageOf_bind hw.lacks_nextHandle
      (common_alike hg (.refl g) (.refl past) hstands hq hroots past.nextHandle)
  exact Query.compile_eq hplans placeholder

/-- **Three ways to run queries in order agree.** For queries that were built on one graph, of
which all but the last have a node as root: the query that runs them in order is compiled with the
same result as their branches, from the first one on, be it a statement with its arguments or an
error. For one query, this says that it may be run in order on its own. Its handle also gives a
query that is compiled like it. -/
theorem sequences_agree {w : Workshop} (hw : w.Reached) {q : Query} {rest : List Query}
    (hq : ∀ p ∈ q :: rest, p ∈ w.queries) (hgraph : ∀ p ∈ rest, p.graph = q.graph)
    (hroots : ∀ p ∈ (q :: rest).dropLast, ∃ h, p.root = .node h) :
    (∃ c space, Workspace.common q.graph (q :: rest) w.space = (.ok c, space) ∧
      ∀ placeholder, (Workspace.compileOf c placeholder space).1 =
        (Workspace.compileOf (rest.foldl Query.branch q) placeholder w.space).1) ∧
    ∃ h space, Workspace.handleOf q w.space = (.ok h, space) ∧
      ∀ placeholder, (Workspace.compileOf ⟨q.graph, .node h, []⟩ placeholder space).1 =
        (Workspace.compileOf q placeholder w.space).1 := by
  have htidy := hw.tidy
  have hid : q.graph < w.space.graphs.length :=
    (htidy.queries q (hq q mem_cons_self)).graph
  have hfound := Workspace.exists_graph hid
  have hback := htidy.space.backward _ _ hfound
  have hnumber := htidy.space.numbered _ _ hfound
  have hsees : ∀ p ∈ q :: rest, ∀ h ∈ p.handles,
      (w.space.graph q.graph).Sees w.space.Holds h :=
    fun p hp h hh => htidy.space.sees hfound ((htidy.queries p (hq p hp)).handles h hh)
  constructor
  · have hone : ∀ p ∈ q :: rest, p.graph = q.graph := forall_mem_cons.mpr ⟨rfl, hgraph⟩
    obtain ⟨handles, past, hrun, hstands⟩ :=
      Workspace.common_run hid hone (cons_ne_nil q rest)
    refine ⟨_, _, hrun, fun placeholder => ?_⟩
    have hpast : past.id = q.graph := hstands.within.id.trans hnumber
    have hset : (⟨w.space.graphs.set q.graph (past.push (.common handles))⟩ : Workspace).graph
        past.id = past.push (.common handles) := by
      rw [hpast]
      exact Workspace.graph_set hid _
    change Query.compile _ placeholder _ = Query.compile _ placeholder _
    rw [hset, Query.foldl_branch_graph]
    exact common_compile hback hstands hsees hroots placeholder
  · obtain ⟨h, g', hrun, hgrown, hstand⟩ := Workspace.handleOf_run q w.space
    refine ⟨h, _, hrun, fun placeholder => ?_⟩
    change Query.compile _ placeholder _ = Query.compile _ placeholder _
    rw [Workspace.graph_set hid]
    have hplan : Alike ((w.space.graph q.graph).Sees w.space.Holds)
        (w.space.graph q.graph).Lacks (g'.planner.scan h []) (q.plan (w.space.graph q.graph)) :=
      scan_standIn hback hgrown (hsees q mem_cons_self) hstand
    exact Query.compile_eq hplan placeholder

/-- The names of a list, after the authors with these names. -/
def bookshopsBranched : Workshop :=
  bookshops.run 0 (.branch ⟨0, .node ⟨0, 1⟩, []⟩ ⟨0, .node ⟨0, 0⟩, []⟩)

/-- A query with a branch is run before all authors are read, in any of these ways. -/
theorem bookshops_sequences_agree :
    (Workspace.compileOf ⟨0, .relation ⟨0, 0⟩, [⟨0, 1⟩, ⟨0, 0⟩]⟩ .numbered
        bookshopsBranched.space).1.toOption.isSome = true ∧
      (∃ c space, Workspace.common 0 [⟨0, .node ⟨0, 0⟩, [⟨0, 1⟩]⟩, ⟨0, .relation ⟨0, 0⟩, []⟩]
          bookshopsBranched.space = (.ok c, space) ∧
        ∀ placeholder, (Workspace.compileOf c placeholder space).1 =
          (Workspace.compileOf ⟨0, .relation ⟨0, 0⟩, [⟨0, 1⟩, ⟨0, 0⟩]⟩ placeholder
            bookshopsBranched.space).1) ∧
      ∃ h space, Workspace.handleOf ⟨0, .node ⟨0, 0⟩, [⟨0, 1⟩]⟩ bookshopsBranched.space =
          (.ok h, space) ∧
        ∀ placeholder, (Workspace.compileOf ⟨0, .node h, []⟩ placeholder space).1 =
          (Workspace.compileOf ⟨0, .node ⟨0, 0⟩, [⟨0, 1⟩]⟩ placeholder
            bookshopsBranched.space).1 := by
  have hreached : bookshopsBranched.Reached := by
    obtain ⟨schemas, hsteps⟩ := bookshops_reached
    exact ⟨schemas, hsteps.tail (.run (by decide +kernel))⟩
  have hqueries : bookshopsBranched.queries =
      ⟨0, .node ⟨0, 0⟩, [⟨0, 1⟩]⟩ :: bookshops.queries := rfl
  refine ⟨by decide +kernel, sequences_agree hreached ?_ ?_ ?_⟩
  · rw [hqueries, bookshops_queries]
    simp
  · simp
  · simp

end StagedSql
