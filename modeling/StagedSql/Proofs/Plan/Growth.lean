import StagedSql.Proofs.Plan.Nodes
import StagedSql.Proofs.Plan.ReferredNodes

/-!
How the state of planning grows.

Whatever is planned, stages are only added after the others, the stack of parent rows is put back,
and what is noted of the rows that a stage leads to stays as long as the stage is there.
-/

namespace StagedSql

open List Plan

variable {m : Nat} {α : Type} {x : Plan α} {name : String} {s : PlanState}

/-! ### Growing states -/

namespace PlanState

variable {k : Nat}

/-- The name of a stage whose number has been given out. -/
def Given (s : PlanState) (name : String) : Prop :=
  ∃ k ≤ s.names.stages, name = numberedName 't' k

/-- The names of the stages are numbered, with numbers that have been given out, and so are the
stages of which it is noted what rows they lead to. -/
def Numbered (s : PlanState) : Prop :=
  (∀ stage ∈ s.stages, s.Given stage.name) ∧ ∀ e ∈ s.written, s.Given e.1.1

lemma numbered_initial : initial.Numbered :=
  ⟨by simp [initial], by simp [initial]⟩

lemma Numbered.lookup_written (hs : s.Numbered) (hk : s.names.stages < k)
    (c : String) : s.written.lookup (numberedName 't' k, c) = none := by
  rw [lookup_eq_none_iff]
  intro e he
  obtain ⟨n, hn, hname⟩ := hs.2 e he
  have hne : (numberedName 't' k, c) ≠ e.1 := by
    intro heq
    have := (numberedName_inj.mp ((congrArg Prod.fst heq).trans hname)).2
    omega
  simpa using hne

lemma Numbered.find?_stages (hs : s.Numbered)
    (hk : s.names.stages < k) : s.stages.find? (·.name == numberedName 't' k) = none := by
  rw [find?_eq_none]
  intro stage hmem
  obtain ⟨n, hn, hname⟩ := hs.1 stage hmem
  have hne : stage.name ≠ numberedName 't' k := by
    intro heq
    have := (numberedName_inj.mp (hname.symm.trans heq)).2
    omega
  simpa using hne

/-- **The state grows**: there are more stages and names, the stack of parent rows is the same, and
so is what is noted of the rows that the first `m` stages lead to. -/
structure Grows (m : Nat) (s s' : PlanState) : Prop where
  stages : ∃ more, s'.stages = s.stages ++ more
  count : s.names.stages ≤ s'.names.stages
  relations : s.names.relations ≤ s'.names.relations
  parents : s'.parents = s.parents
  written : ∀ k ≤ m, ∀ c,
    s'.written.lookup (numberedName 't' k, c) = s.written.lookup (numberedName 't' k, c)

variable {s' s'' : PlanState}

lemma Grows.refl (m : Nat) (s : PlanState) : s.Grows m s :=
  ⟨⟨[], by simp⟩, Nat.le_refl _, Nat.le_refl _, rfl, fun _ _ _ => rfl⟩

lemma Grows.trans (h : s.Grows m s') (h' : s'.Grows m s'') : s.Grows m s'' := by
  obtain ⟨more, hmore⟩ := h.stages
  obtain ⟨more', hmore'⟩ := h'.stages
  exact ⟨⟨more ++ more', by rw [hmore', hmore, append_assoc]⟩,
    Nat.le_trans h.count h'.count, Nat.le_trans h.relations h'.relations,
    h'.parents.trans h.parents, fun k hk c => (h'.written k hk c).trans (h.written k hk c)⟩

lemma Quiet.grows (h : s.Quiet s') (m : Nat) : s.Grows m s' :=
  ⟨⟨[], by rw [h.stages, append_nil]⟩, Nat.le_of_eq h.count.symm, h.relations, h.parents,
    fun _ _ _ => by rw [h.written]⟩

lemma Quiet.numbered (h : s.Quiet s') (hs : s.Numbered) : s'.Numbered := by
  simp only [Numbered, Given, h.stages, h.count, h.written]
  exact hs

/-- What is noted of a later stage does not concern the first ones. -/
lemma lookup_append_of_lt {entries old : List ((String × String) × List String)} (hm : m < k)
    (hkeys : ∀ e ∈ entries, e.1.1 = numberedName 't' k) :
    ∀ n ≤ m, ∀ c, (entries ++ old).lookup (numberedName 't' n, c) =
      old.lookup (numberedName 't' n, c) := by
  intro n hn c
  induction entries with
  | nil => rfl
  | cons e rest ih =>
    have hne : (numberedName 't' n, c) ≠ e.1 := by
      intro he
      have hsame : numberedName 't' n = numberedName 't' k := by
        rw [← hkeys e (by simp), ← he]
      have := (numberedName_inj.mp hsame).2
      omega
    grind

lemma numbered_append {entries : List ((String × String) × List String)} (h : s.Given name)
    (hkeys : ∀ e ∈ entries, e.1.1 = name) (hs : s.Numbered) :
    Numbered { s with written := entries ++ s.written } := by
  refine ⟨hs.1, fun e he => ?_⟩
  rcases mem_append.mp he with he | he
  · rwa [hkeys e he]
  · exact hs.2 e he

namespace Adds

variable {own : Handle} {stage : Stage}

lemma numbered (h : s.Adds own stage s') (hs : s.Numbered) : s'.Numbered := by
  have hmore : ∀ {name : String}, s.Given name → s'.Given name := by
    rintro name ⟨k, hk, hname⟩
    exact ⟨k, Nat.le_trans hk (h.count ▸ Nat.le_succ _), hname⟩
  have hown : s'.Given stage.name := ⟨s.names.stages + 1, Nat.le_of_eq h.count.symm, h.name⟩
  obtain ⟨base, hwritten⟩ := h.written
  rw [Numbered, h.stages, hwritten, forall_mem_append, forall_mem_append, forall_mem_singleton]
  refine ⟨⟨fun st hst => hmore (hs.1 st hst), hown⟩, fun e he => ?_, fun e he => hmore (hs.2 e he)⟩
  rwa [(mem_inherited he).1]

lemma find? (h : s.Adds own stage s') (hs : s.Numbered) (later : List Stage) :
    (s'.stages ++ later).find? (·.name == stage.name) = some stage := by
  have hnone := hs.find?_stages (Nat.lt_succ_self _)
  rw [h.stages, append_assoc, find?_append, h.name, nextStage, hnone]
  simp [h.name, nextStage]

lemma grows (h : s.Adds own stage s') (hm : m ≤ s.names.stages) : s.Grows m s' := by
  obtain ⟨base, hwritten⟩ := h.written
  refine ⟨⟨[stage], h.stages⟩, h.count ▸ Nat.le_succ _, by simp [h.names], h.parents, ?_⟩
  rw [hwritten]
  exact lookup_append_of_lt (Nat.lt_succ_of_le hm) fun e he => (mem_inherited he).1.trans h.name

end Adds

end PlanState

/-- **The law of all planning**, for states that have given out names to `m` stages. -/
def growing (m : Nat) : Law where
  holds s := s.Numbered ∧ m ≤ s.names.stages
  grows s s' := s.Grows m s'
  refl := .refl m
  trans h h' := h.trans h'

lemma Plan.Ensures.bind_grows {β : Type} {f : α → Plan β} {mid : α → PlanState → Prop}
    {post : β → PlanState → Prop} (hobeys : Obeys (growing m) x) (hs : s.Numbered)
    (hm : m ≤ s.names.stages) (hx : Ensures x s mid)
    (hf : ∀ a s', s'.Numbered → s.Grows m s' → mid a s' → Ensures (f a) s' post) :
    Ensures (x >>= f) s post := by
  intro b s'' h
  obtain ⟨a, s', ha, hb⟩ := bind_eq_ok h
  obtain ⟨hs', hg⟩ := hobeys.run ⟨hs, hm⟩ ha
  exact hf a s' hs'.1 hg (hx a s' ha) b s'' hb

lemma growing_quiet {s' : PlanState} (hq : s.Quiet s') :
    ((growing m).holds s → (growing m).holds s') ∧ (growing m).grows s s' :=
  ⟨fun hs => ⟨hq.numbered hs.1, hq.count ▸ hs.2⟩, hq.grows m⟩

lemma Plan.Plain.grows (hx : Plain x) (m : Nat) : Obeys (growing m) x :=
  hx.obeys growing_quiet

lemma Plan.Asks.grows {hs : List Handle} {x : Earlier → Plan α} (hx : Asks hs x) {e : Earlier}
    (he : e.Obeys (growing m)) : Obeys (growing m) (x e) :=
  hx.obeys growing_quiet he

/-! ### Stages -/

section Stages

variable {earlier : Earlier} {entries : List ((String × String) × List String)}

lemma PlanState.Adds.growing {s' : PlanState} {own : Handle} {stage : Stage}
    (h : s.Adds own stage s') (hs : (growing m).holds s) :
    (growing m).holds s' ∧ (growing m).grows s s' :=
  ⟨⟨h.numbered hs.1, Nat.le_trans hs.2 (h.grows hs.2).count⟩, h.grows hs.2⟩

lemma Scan.staged_grows (own : Handle) (scan : Scan) :
    Keeps (growing m) (scan.toStage own) s (fun _ _ => True) ∧
      Keeps (growing m) (scan.toPage own) s fun _ _ => True :=
  Scan.keeps_adds fun _ hs ha => ⟨(ha.growing hs).1, (ha.growing hs).2, trivial⟩

lemma setStage_grows (own : Handle) (name : String) :
    Obeys (growing m) (setStage own name) :=
  .of_run fun s => ⟨_, _, rfl, id, ⟨[], by simp⟩, Nat.le_refl _, Nat.le_refl _, rfl,
    fun _ _ _ => rfl⟩

lemma stageOf_obeys {law : Law} (own : Handle) : Obeys law (stageOf? own) :=
  .bind .get fun _ => .pure _

lemma setWritten_grows {k : Nat} (hm : m < k) (hk : k ≤ s.names.stages) (column : String)
    (members : List String) :
    Keeps (growing m) (setWritten (numberedName 't' k) column members) s fun _ _ => True := by
  have hkeys : ∀ e ∈ [((numberedName 't' k, column), members)], e.1.1 = numberedName 't' k := by
    simp
  exact .of_run rfl (fun hs => ⟨PlanState.numbered_append ⟨k, hk, rfl⟩ hkeys hs.1, hs.2⟩)
    ⟨⟨[], by simp⟩, Nat.le_refl _, Nat.le_refl _, rfl, PlanState.lookup_append_of_lt hm hkeys⟩
    trivial

lemma growing_links (he : earlier.Obeys (growing m)) {k : Nat} (hm : m < k) (r : Relation) :
    Links (growing m) earlier (numberedName 't' k) r (fun s => k ≤ s.names.stages)
      (fun _ _ => True) (fun _ _ => True) True where
  known_mono hg h := Nat.le_trans h hg.count
  member_mono _ _ := trivial
  done_mono _ _ := trivial
  found _ _ := trivial
  child h s := (he.stage h s).mono fun _ _ _ _ => ⟨trivial, trivial⟩
  set column h _ _ := setWritten_grows hm h column _
  within := by
    -- the parent row is put on the stack and taken off again
    intro s x hs _ hx hholds a s' hrun
    obtain ⟨_, s1, hpush, hrun⟩ := bind_eq_ok hrun
    cases hpush
    obtain ⟨_, s2, hbody, hrun⟩ := bind_eq_ok hrun
    cases hrun
    obtain ⟨hs2, hg, hdone⟩ := hx hholds _ _ hbody
    refine ⟨hs2, ⟨hg.stages, hg.count, hg.relations, ?_, hg.written⟩, fun _ _ => trivial⟩
    change s2.parents.tail = s.parents
    rw [hg.parents]
    rfl
  pushed h := h

lemma stageWrite_grows (he : earlier.Obeys (growing m)) (past : Graph) (own : Handle)
    (node : Node) : Obeys (growing m) (stageWrite past earlier own node) := by
  intro s
  refine stageWrite_keeps ((writeStatement_asks past.schema node).grows he s)
    (fun _ _ _ => trivial) fun statement r s1 hs1 hx _ => ?_
  have ha := s1.addWrite_adds own statement r
  obtain ⟨hs2, hg⟩ := ha.growing hs1
  refine ⟨hs2, (growing m).trans hx hg, ?_⟩
  exact (linkWrite_links (growing_links he (Nat.lt_succ_of_le hs1.2) r)
    (Nat.le_of_eq ha.count.symm) fun _ _ _ _ _ _ _ => trivial).forget

/-- **The state grows whatever is planned**, by induction on the list of nodes. -/
theorem planner_grows (m : Nat) (g : Graph) : g.planner.Obeys (growing m) := by
  refine (planner_meets fun _ node _ _ _ he => ofNode_meets (he.obeys.readRules growing_quiet
    (fun _ _ => stageWrite_grows he.obeys _ _ node _) fun _ _ _ _ _ _ => ?_)
    (fun _ => (Scan.staged_grows _ _).1) fun _ _ _ => setStage_grows _ _ _).obeys
  exact (((scanReading_asks _ _ []).grows he.obeys).bind fun scan _ => (scan.staged_grows _).2) _

end Stages

end StagedSql
