import StagedSql.Proofs.Plan.Ledger
import StagedSql.Proofs.Plan.Nodes

/-!
Nodes are staged once.

The node at a place is planned with the nodes before it. Planning it may stage any of these, may
stage the page of the node, and stages the node itself if it is a write (`planner_accounts`).
-/

namespace StagedSql

open List Plan

variable {g past : Graph} {node : Node} {s : PlanState} {B B' : Origin → Prop}

def Origin.Before (n : Nat) (o : Origin) : Prop := o.handle.index < n

def Origin.ByReading (own : Handle) (write : Bool) (o : Origin) : Prop :=
  o.Before own.index ∨ o = .page own ∨ write = true ∧ o = .node own

lemma Origin.Before.succ {n : Nat} {o : Origin} (h : o.Before n) : o.Before (n + 1) :=
  Nat.lt_succ_of_lt h

lemma Origin.ByReading.before {own : Handle} {write : Bool} {o : Origin}
    (h : o.ByReading own write) : o.Before (own.index + 1) := by
  rcases h with h | rfl | ⟨-, rfl⟩
  · exact h.succ
  · exact Nat.lt_succ_self _
  · exact Nat.lt_succ_self _

section Among

variable {α : Type} {x : Plan α} {post : α → PlanState → Prop} (hB : ∀ o, B o → B' o)

include hB

lemma Plan.Keeps.among (h : Keeps (accounting g B) x s post) :
    Keeps (accounting g B') x s fun a s' => s.Extends B s' ∧ post a s' :=
  fun hs => (h hs).mono fun _ _ hpost => ⟨hpost.1, hpost.2.1.mono hB, hpost.2⟩

lemma Earlier.Obeys.among {e : Earlier} (he : e.Obeys (accounting g B)) :
    e.Obeys (accounting g B') :=
  ⟨fun h s => ((he.stage h s).among hB).forget,
    fun enclosed h s => ((he.read enclosed h s).among hB).forget,
    fun h scope s => ((he.scan h scope s).among hB).forget,
    fun h s => ((he.subselect h s).among hB).forget⟩

end Among

lemma accounting_quiet {s' : PlanState} (hq : s.Quiet s') :
    ((accounting g B).holds s → (accounting g B).holds s') ∧ (accounting g B).grows s s' :=
  ⟨fun hs => hs.congr hq.stages hq.staged hq.pages, .of_eq hq.staged hq.pages⟩

lemma not_mem_keys_of_lookup {α β : Type} [BEq α] [LawfulBEq α] {l : List (α × β)} {k : α}
    (h : l.lookup k = none) : k ∉ l.map (·.1) := by
  grind

section Places

variable (hat : g.HasNode past node)
  (he : past.planner.Obeys (accounting g (Origin.Before past.size)))

include hat he

/-- **A write is staged once.** The write at a place that has no stage gets one. -/
lemma stageWrite_accounts (hB : ∀ o : Origin, o.Before past.size → B o)
    (hown : B (.node ⟨g.id, past.size⟩)) (hm : node.isMutation = true)
    (hnew : s.staged.lookup ⟨g.id, past.size⟩ = none) :
    Keeps (accounting g B) (stageWrite past past.planner ⟨g.id, past.size⟩ node) s
      fun _ _ => True := by
  have hwrite := ((writeStatement_asks past.schema node).obeys accounting_quiet he s).with_run
  refine stageWrite_keeps (hwrite.among hB) (fun _ _ _ => trivial)
    fun statement relation s1 hs1 hx1 hmid => ?_
  obtain ⟨hx, -, hrun⟩ := hmid
  rw [hat.schema] at hrun
  have hnoted : ∀ o, (s1.addWrite ⟨g.id, past.size⟩ statement relation).Noted o ↔
      o = .node ⟨g.id, past.size⟩ ∨ s1.Noted o := PlanState.noted_staged rfl rfl
  have hkept : s1.Kept (s1.addWrite ⟨g.id, past.size⟩ statement relation) :=
    ⟨suffix_cons _ _, suffix_rfl⟩
  refine ⟨hs1.add hnoted hkept ?_ (.write hat hm hrun hkept)
    (by simp [PlanState.addWrite, PlanState.add]), .trans hx1 (.of_noted hnoted hown),
    (linkWrite_links ((he.among hB).links (fun h h' h'' hs => hs.congr h h' h'')
      (fun _ h h' => .of_eq h h') _ _) trivial fun _ _ _ _ _ _ _ => trivial).forget⟩
  exact fun h => not_mem_keys_of_lookup hnew (hx.of_not (Nat.lt_irrefl _) h)

/-- **The node at a place as a reading.** -/
lemma accounts_readRules :
    (accounting g (Origin.ByReading ⟨g.id, past.size⟩ node.isMutation)).alone.ReadRules past
      past.planner ⟨g.id, past.size⟩ node := by
  have hB : ∀ o : Origin, o.Before past.size → o.ByReading ⟨g.id, past.size⟩ node.isMutation :=
    fun _ => .inl
  refine (he.among hB).readRules accounting_quiet
    (fun hm => stageWrite_accounts hat he hB (.inr (.inr ⟨hm, rfl⟩)) hm) ?_
  rintro sel r s0 s rfl hpaged hnew hrun hs0 -
  -- the source and the page are read with the nodes before the place only
  have hsource : Obeys (accounting g (Origin.Before past.size))
      (readSource past.planner true sel.source) := by
    cases sel.source with
    | relation id => exact .pure _
    | node h => exact he.read true h
  obtain ⟨-, hx1⟩ := hsource.run hs0 hrun
  have hscan := ((scanReading_asks past.schema
    ⟨r.base, .empty, sel.ordering, sel.limit, sel.offset, r.conditions⟩ []).obeys accounting_quiet
      he s).with_run
  refine (hscan.among hB).bind fun scan s2 _ hmid => ?_
  obtain ⟨hx2, -, hmade⟩ := hmid
  have hnoted : ∀ o, (s2.addPage ⟨g.id, past.size⟩ scan).Noted o ↔
      o = .page ⟨g.id, past.size⟩ ∨ s2.Noted o := PlanState.noted_paged rfl rfl
  have hkept : s2.Kept (s2.addPage ⟨g.id, past.size⟩ scan) := ⟨suffix_rfl, suffix_cons _ _⟩
  refine .of_run (toPage_run scan _ s2) (fun hs2 => hs2.add hnoted hkept ?_
    (.page hat hpaged hrun hmade hkept)
    (by simp [PlanState.addPage, PlanState.add, PlanState.stageOf]))
    (.of_noted hnoted (.inr (.inl rfl))) trivial
  exact fun h => not_mem_keys_of_lookup hnew
    ((hx1.trans hx2).of_not (o := .page _) (Nat.lt_irrefl _) h)

/-- **The node at a place as a stage.** -/
lemma accounts_stageRules :
    (accounting g (Origin.Before (past.size + 1))).alone.StageRules past past.planner
      ⟨g.id, past.size⟩ node where
  each := (he.among fun _ => Origin.Before.succ).stage
  mono _ _ := trivial
  found _ _ := trivial
  write hm hnew := (stageWrite_accounts hat he (fun _ => Origin.Before.succ)
    (Nat.lt_succ_self _) hm hnew).mono fun _ _ _ _ _ _ => trivial
  scan := by
    intro s hread hnew
    have hscan := (scanAt_meets (accounts_readRules hat he) (s := s)
      (show NodeLaw.Scope _ [] s from trivial)).with_run
    refine (hscan.among fun _ => Origin.ByReading.before).bind fun scan s2 _ hmid => ?_
    obtain ⟨hx, -, hmade⟩ := hmid
    have hnoted : ∀ o, (s2.addScan ⟨g.id, past.size⟩ scan).Noted o ↔
        o = .node ⟨g.id, past.size⟩ ∨ s2.Noted o := PlanState.noted_staged rfl rfl
    have hkept : s2.Kept (s2.addScan ⟨g.id, past.size⟩ scan) := ⟨suffix_cons _ _, suffix_rfl⟩
    refine .of_run (toStage_run scan _ s2) (fun hs2 => hs2.add hnoted hkept ?_
      (.read hat hread hmade hkept)
      (by simp [PlanState.addScan, PlanState.add, PlanState.stageOf]))
      (.of_noted hnoted (Nat.lt_succ_self _)) trivial
    have hnot : ¬ (Origin.node ⟨g.id, past.size⟩).ByReading ⟨g.id, past.size⟩ node.isMutation := by
      simp [Origin.ByReading, Origin.Before, Origin.handle, hread]
    exact fun h => not_mem_keys_of_lookup hnew (hx.of_not hnot h)
  last := by
    rintro queries names last s rfl - -
    have hnoted : ∀ o, PlanState.Noted
        { s with staged := (⟨g.id, past.size⟩, last) :: s.staged } o ↔
          o = .node ⟨g.id, past.size⟩ ∨ s.Noted o := PlanState.noted_staged rfl rfl
    exact .of_run rfl (fun hs => hs.note hnoted ⟨suffix_cons _ _, suffix_rfl⟩ hat.found rfl rfl)
      (.of_noted hnoted (Nat.lt_succ_self _)) trivial

/-- **One more node**: it is planned with the nodes before it, which are planned as they were. -/
lemma push_accounts :
    (past.planner.push past node).Obeys (accounting g (Origin.Before (past.size + 1))) := by
  have hr := accounts_readRules hat he
  have hown : past.nextHandle = ⟨g.id, past.size⟩ := by rw [Graph.nextHandle, hat.id]
  refine Earlier.Meets.obeys (.push
    (fun h _ => (he.among fun _ => Origin.Before.succ).meets h) ?_)
  rw [hown]
  exact ⟨fun s => stageAt_meets (accounts_stageRules hat he),
    fun enclosed s => ((readAt_meets hr enclosed).among fun _ => Origin.ByReading.before).forget,
    fun scope s _ => ((scanAt_meets hr trivial).among fun _ => Origin.ByReading.before).forget,
    fun s => ((subselectAt_meets hr).among fun _ => Origin.ByReading.before).forget⟩

end Places

/-- **All nodes of a graph**, by induction on the list of nodes, of which the oldest are planned
first. -/
lemma planner_accounts (g : Graph) : g.planner.Obeys (accounting g (Origin.Before g.size)) := by
  have hall : ∀ nodes newer, g.nodes = newer ++ nodes →
      (Earlier.ofNodes g.id g.schema nodes).Obeys (accounting g (Origin.Before nodes.length)) := by
    intro nodes
    induction nodes with
    | nil => exact fun _ _ => (Earlier.Meets.none _).obeys
    | cons node rest ih =>
      intro newer hnodes
      have hat : g.HasNode ⟨g.id, g.schema, rest⟩ node :=
        ⟨rfl, rfl, Graph.node_of_append hnodes, rfl, rfl, newer, hnodes⟩
      exact push_accounts hat (ih (newer ++ [node]) (by simpa using hnodes))
  exact hall g.nodes [] rfl

end StagedSql
