import StagedSql.Proofs.Graph.Operations
import StagedSql.Proofs.Plan.Nodes
import StagedSql.Proofs.Plan.ReferredNodes

/-!
Nodes that are planned alike.

If two ways of planning the nodes before go alike on what a node refers to, then so do its
conditions, selections and payloads, and the node itself (`ofNode_alike`).
-/

namespace StagedSql

open Plan Condition

/-! ### Blind steps -/

section Blind

open Plan (Blind)

lemma freshStage_blind : Blind freshStage := fun _ _ => rfl

lemma addStage_blind (stage : Stage) : Blind (addStage stage) := fun _ _ => rfl

lemma setWritten_blind (stage column : String) (members : List String) :
    Blind (setWritten stage column members) := fun _ _ => rfl

lemma inheritWritten_blind (base : Option String) (stage : String) :
    Blind (inheritWritten base stage) := by
  cases base with
  | none => exact .pure _
  | some name => exact fun _ _ => rfl

end Blind

/-! ### The nodes before -/

/-- Two ways of planning go alike on a node. -/
structure Earlier.AlikeAt (kept free : Handle → Prop) (h : Handle) (e e' : Earlier) : Prop where
  stage : Alike kept free (e.stage h) (e'.stage h)
  read : ∀ enclosed, Alike kept free (e.read enclosed h) (e'.read enclosed h)
  scan : ∀ scope, Alike kept free (e.scan h scope) (e'.scan h scope)
  subselect : Alike kept free (e.subselect h) (e'.subselect h)

/-- **Two ways of planning go alike on some nodes.** The readings of these nodes refer to such nodes
only. -/
structure Earlier.Alike (kept free near : Handle → Prop) (e e' : Earlier) : Prop where
  node : ∀ h, near h → e.AlikeAt kept free h e'
  handles : ∀ enclosed h, near h → ∀ r, (e.read enclosed h).Gives r → ∀ k ∈ r.handles, near k

/-- **What asks such nodes only goes alike**, by recursion on how the step is put together. -/
lemma Plan.Asks.alike {α : Type} {hs : List Handle} {x : Earlier → Plan α} (hx : Asks hs x)
    {kept free near : Handle → Prop} {e e' : Earlier} (he : e.Alike kept free near e') :
    (∀ h ∈ hs, near h) → Alike kept free (x e) (x e') := by
  induction hx with
  | plain hx => exact fun _ => hx.blind.alike
  | throw error => exact fun _ => .of_throw _
  | bind _ _ ihx ihf =>
    intro hs
    rw [List.forall_mem_append] at hs
    exact .bind (ihx hs.1) fun a _ => ihf a hs.2
  | scan h scope => exact fun hs => (he.node h (hs h (.head _))).scan scope
  | subselect h => exact fun hs => (he.node h (hs h (.head _))).subselect
  | read h _ ih =>
    intro hs
    have hh : near h := hs h (.head _)
    exact .bind ((he.node h hh).read false) fun r hr => ih r (he.handles false h hh r hr)

open List

/-- **Two graphs agree on some nodes**, which refer to such nodes only. -/
structure Graph.Agrees (near : Handle → Prop) (past past' : Graph) : Prop where
  schema : past'.schema = past.schema
  node : ∀ h, near h → past'.node h = past.node h
  closed : ∀ h node, near h → past.node h = .ok node → ∀ k ∈ node.handles, near k

section Stages

variable {kept free near : Handle → Prop} {e e' : Earlier} {past past' : Graph} {own h : Handle}
  {node : Node} {r : Reading} {source : Source} {s : SelectNode}

/-! ### Steps -/

lemma stageOf_alike (hk : kept h) : Alike kept free (stageOf? h) (stageOf? h) := by
  rintro s t ⟨staged, rfl, hkept, hfree⟩
  change Matches _ (.ok (s.staged.lookup h, s)) (.ok (staged.lookup h, _))
  rw [hkept h hk]
  exact .ok _ ⟨staged, rfl, hkept, hfree⟩

lemma setStage_alike (hf : ¬ free h) (name : String) :
    Alike kept free (setStage h name) (setStage h name) := by
  rintro s t ⟨staged, rfl, hkept, hfree⟩
  refine .ok _ ⟨(h, name) :: staged, rfl, fun k hk => ?_, fun k hk => ?_⟩
  · rw [List.lookup_cons, List.lookup_cons, hkept k hk]
  · grind

/-- The stages that the forward columns of a write lead to. By induction on the columns. -/
lemma linkForward_alike (hg : past.Agrees near past') (hk : ∀ h, near h → kept h)
    (stage : String) (relation : Relation) {entries : List (String × PayloadValue)}
    (he : ∀ h ∈ (Payload.values entries).handles, near h) :
    Alike kept free (linkForward past stage relation entries)
      (linkForward past' stage relation entries) := by
  induction entries with
  | nil => exact .of_pure _
  | cons entry rest ih =>
    obtain ⟨column, v⟩ := entry
    rw [Payload.handles, flatMap_cons, forall_mem_append] at he
    have hrest := ih he.2
    cases v with
    | value v => exact hrest
    | parentKey => exact hrest
    | query h =>
      have hh : near h := he.1 h (.head _)
      rw [linkForward, linkForward, hg.node h hh]
      split
      · refine .lift_bind fun found hfound => ?_
        split
        · rename_i inner _ _ _ _
          have hinner : near inner :=
            hg.closed h _ hh hfound inner (mem_append_left _ (.head _))
          rw [hg.node inner hinner]
          refine .lift_bind fun below _ => ?_
          split
          · refine .bind (stageOf_alike (hk inner hinner)) fun name? _ => ?_
            cases name? with
            | none => exact hrest
            | some name => exact .bind (setWritten_blind _ _ _).alike fun _ _ => hrest
          · exact hrest
        · exact hrest
      · exact hrest

/-! ### What readings refer to -/

lemma Selection.handles_empty : Selection.empty.handles = [] := by
  simp [Selection.empty, Selection.handles, Lookup.handlesOf]

lemma Reading.handles_ofBase (base : Base) : (Reading.ofBase base).handles = [] := by
  rfl

lemma scanBase_alike (e e' : Earlier) (schema : Schema) (base : Base) (scope : List String) :
    Alike kept free (scanReading schema e (.ofBase base) scope)
      (scanReading schema e' (.ofBase base) scope) := by
  have hnothing : e.Alike kept free (fun _ => False) e' :=
    ⟨fun _ hh => hh.elim, fun _ _ hh => hh.elim⟩
  refine (scanReading_asks schema (.ofBase base) scope).alike hnothing ?_
  rw [Reading.handles_ofBase]
  simp

/-- A reading that asks for other columns refers to the queries of its conditions and to those by
which these columns are looked up. -/
lemma Reading.handles_asking (hr : ∀ k ∈ r.handles, near k) {selection : Selection}
    (hs : ∀ k ∈ selection.handles, near k) (ordering : List SortKey)
    (limit offset : Option UInt64) :
    ∀ k ∈ Reading.handles { r with
      selection := selection, ordering := ordering, limit := limit, offset := offset }, near k := by
  rw [Reading.handles, forall_mem_append] at hr
  exact forall_mem_append.mpr ⟨hr.1, hs⟩

/-- **What a reading refers to** are queries of the nodes that are read, by induction on how they
are read. -/
lemma Graph.Reads.handles {g : Graph} {st : PlanState} (hr : g.Reads st source r)
    (hclosed : ∀ h node, near h → g.node h = .ok node → ∀ k ∈ node.handles, near k)
    (hs : ∀ h ∈ source.handles, ∀ node, g.node h = .ok node → ∀ k ∈ node.handles, near k) :
    ∀ k ∈ r.handles, near k := by
  induction hr with
  | relation _ id => simp [Reading.handles_ofBase]
  | stage hn _ => simp [Reading.handles_ofBase]
  | values hn _ => simp [Reading.handles_ofBase]
  | page hn _ name =>
    have hnode := forall_mem_append.mp (hs _ (.head _) _ hn)
    exact Reading.handles_asking (r := .ofBase (.stage name)) (by simp [Reading.handles_ofBase])
      hnode.2 _ _ _
  | select hn _ _ ih =>
    have hnode := forall_mem_append.mp (hs _ (.head _) _ hn)
    exact Reading.handles_asking (ih fun h hh node => hclosed h node (hnode.1 h hh)) hnode.2 _ _ _
  | filter hn _ _ ih =>
    have hnode := forall_mem_append.mp (hs _ (.head _) _ hn)
    have hsource := ih fun h hh node => hclosed h node (hnode.1 h hh)
    rw [Reading.handles, forall_mem_append] at hsource
    rw [Reading.handles, Condition.handlesOf_append, append_assoc, forall_mem_append,
      forall_mem_append]
    exact ⟨hsource.1, by simpa [Condition.handlesOf] using hnode.2, hsource.2⟩
  | common hn _ hlast _ ih =>
    have hnear := hs _ (.head _) _ hn _ (mem_of_getLast? hlast)
    refine ih fun h hh node => hclosed h node ?_
    rwa [mem_singleton.mp hh]

/-! ### Nodes -/

variable (he : e.Alike kept free near e')

include he

lemma stageReverse_alike (stage : String) (relation : Relation)
    {reverse : List (String × List Handle)} (hr : ∀ h ∈ reverse.flatMap (·.2), near h) :
    Alike kept free (stageReverse e stage relation reverse)
      (stageReverse e' stage relation reverse) := by
  rw [stageReverse, stageReverse]
  split
  · refine .bind (Blind.alike fun _ _ => rfl) fun _ _ => ?_
    refine .bind (.forM fun entry hentry => ?_) fun _ _ => Blind.alike fun _ _ => rfl
    refine .bind (.mapM fun child hchild => ?_) fun _ _ => (setWritten_blind _ _ _).alike
    exact (he.node child (hr child (mem_flatMap.mpr ⟨entry, hentry, hchild⟩))).stage
  · exact .of_pure _

lemma readSource_alike (enclosed : Bool) (hs : ∀ h ∈ source.handles, near h) :
    Alike kept free (readSource e enclosed source) (readSource e' enclosed source) := by
  cases source with
  | relation id => exact .of_pure _
  | node h => exact (he.node h (hs h (.head _))).read enclosed

lemma readSource_handles (enclosed : Bool) (hs : ∀ h ∈ source.handles, near h)
    (hr : (readSource e enclosed source).Gives r) : ∀ k ∈ r.handles, near k := by
  cases source with
  | relation id =>
    rw [hr.pure, Reading.handles_ofBase]
    simp
  | node h => exact he.handles enclosed h (hs h (.head _)) r hr

lemma stagePage_alike (schema : Schema) (own : Handle) (hs : ∀ h ∈ s.source.handles, near h) :
    Alike kept free (stagePage schema e own s) (stagePage schema e' own s) := by
  refine .get_bind (fun _ _ => rfl) fun st => ?_
  split
  · exact .of_pure _
  · refine .bind (readSource_alike he true hs) fun reading hreading => ?_
    have hnone : ∀ k ∈ Selection.empty.handles, near k := by
      rw [Selection.handles_empty]
      simp
    have hpage := Reading.handles_asking (readSource_handles he true hs hreading) hnone
      s.ordering s.limit s.offset
    refine .bind ((scanReading_asks schema _ []).alike he hpage) fun scan _ => ?_
    refine .bind freshStage_blind.alike fun name _ => ?_
    refine .bind (inheritWritten_blind _ _).alike fun _ _ => ?_
    refine .bind (addStage_blind _).alike fun _ _ => ?_
    exact .bind (Blind.alike fun _ _ => rfl) fun _ _ => .of_pure _

lemma readSelect_alike (schema : Schema) (enclosed : Bool) (own : Handle)
    (hs : ∀ h ∈ s.source.handles, near h) :
    Alike kept free (readSelect schema e enclosed own s) (readSelect schema e' enclosed own s) := by
  rw [readSelect, readSelect]
  split
  · exact .bind (stagePage_alike he schema own hs) fun _ _ => .of_pure _
  · exact .bind (readSource_alike he true hs) fun _ _ => .of_pure _

variable (hn : ∀ h ∈ node.handles, near h)

include hn

lemma writeStatement_alike (schema : Schema) :
    Alike kept free (writeStatement schema e node) (writeStatement schema e' node) := by
  refine (writeStatement_asks schema node).alike he fun h hh => hn h ?_
  cases node with
  | insert id payload reverse => exact mem_append_left _ hh
  | update id payload condition | delete id condition => exact hh
  | _ => cases hh

variable (hg : past.Agrees near past') (hk : ∀ h, near h → kept h)

include hg hk

lemma linkWrite_alike (stage : String) (relation : Relation) :
    Alike kept free (linkWrite past e stage relation node)
      (linkWrite past' e' stage relation node) := by
  cases node with
  | insert id payload reverse =>
    rw [Node.handles, forall_mem_append] at hn
    have hreverse := stageReverse_alike he stage relation hn.2
    cases payload with
    | values entries =>
      exact .bind (linkForward_alike hg hk stage relation hn.1) fun _ _ => hreverse
    | query h => exact hreverse
  | update id payload condition =>
    rw [Node.handles, forall_mem_append] at hn
    cases payload with
    | values entries => exact linkForward_alike hg hk stage relation hn.1
    | query h => exact .of_pure _
  | _ => exact .of_pure _

variable (hown : ¬ free own)

include hown

/-- **A write.** -/
lemma stageWrite_alike :
    Alike kept free (stageWrite past e own node) (stageWrite past' e' own node) := by
  rw [stageWrite, stageWrite, hg.schema]
  refine .bind (writeStatement_alike he hn past.schema) fun write? _ => ?_
  cases write? with
  | none => exact .of_pure _
  | some write =>
    refine .bind freshStage_blind.alike fun name _ => ?_
    refine .bind (addStage_blind _).alike fun _ _ => ?_
    refine .bind (setStage_alike hown name) fun _ _ => ?_
    exact .bind (linkWrite_alike he hn hg hk name write.2) fun _ _ => .of_pure _

/-- **A node without a stage is read.** -/
lemma readNode_alike (enclosed : Bool) :
    Alike kept free (readNode past e enclosed own node) (readNode past' e' enclosed own node) := by
  cases node with
  | select s =>
    rw [readNode, readNode, hg.schema]
    exact readSelect_alike he past.schema enclosed own fun h hh =>
      hn h (mem_append_left _ hh)
  | filter source condition =>
    rw [Node.handles, forall_mem_append] at hn
    exact .bind (readSource_alike he true hn.1) fun _ _ => .of_pure _
  | common queries =>
    rw [readNode, readNode]
    split
    · exact .of_throw _
    · rename_i last hlast
      refine .bind (.forM fun h hh => ?_) fun _ _ =>
        (he.node last (hn last (mem_of_getLast? hlast))).read enclosed
      exact .bind (he.node h (hn h (dropLast_subset _ hh))).stage fun _ _ => .of_pure _
  | values columns rows => exact .of_pure _
  | insert _ _ _ | update _ _ _ | delete _ _ =>
    refine .bind (stageWrite_alike he hn hg hk hown) fun name? _ => ?_
    cases name? with
    | none => exact .of_throw _
    | some name => exact .of_pure _

variable (hkown : kept own)

include hkown

/-- **A node is read.** -/
lemma readAt_alike (enclosed : Bool) :
    Alike kept free (readAt past e enclosed own node) (readAt past' e' enclosed own node) := by
  refine .bind (stageOf_alike hkown) fun name? _ => ?_
  cases name? with
  | none => exact readNode_alike he hn hg hk hown enclosed
  | some name => exact .of_pure _

variable (hread : ∀ enclosed r, (readAt past e enclosed own node).Gives r → ∀ k ∈ r.handles, near k)

include hread

/-- **The SELECT of a node.** -/
lemma scanAt_alike (scope : List String) :
    Alike kept free (scanAt past e own node scope) (scanAt past' e' own node scope) := by
  rw [scanAt, scanAt, hg.schema]
  refine .bind (readAt_alike he hn hg hk hown hkown false) fun reading hreading => ?_
  exact (scanReading_asks past.schema _ scope).alike he (hread false _ hreading)

/-- **The sub-select of a node**, whose relation is found in the same way if it writes. -/
lemma subselectAt_alike
    (hrelation : node.isMutation = true → (past'.push node).relationOf (.node own) = (past.push
      node).relationOf (.node own)) :
    Alike kept free (subselectAt past e own node) (subselectAt past' e' own node) := by
  rw [subselectAt, subselectAt, hg.schema]
  refine .bind (readAt_alike he hn hg hk hown hkown false) fun reading hreading => ?_
  have hhandles := hread false _ hreading
  have hscan : ∀ r : Reading, (∀ k ∈ r.handles, near k) → Alike kept free (do
        let scan ← scanReading past.schema e r []
        return Statement.select scan.select)
      (do
        let scan ← scanReading past.schema e' r []
        return Statement.select scan.select) :=
    fun r hr => .bind ((scanReading_asks past.schema r []).alike he hr) fun _ _ => .of_pure _
  split
  · rename_i hmutation
    rw [hrelation (Bool.and_eq_true_iff.mp hmutation).1]
    refine .lift_bind fun id? _ => ?_
    cases id? with
    | none => exact hscan reading hhandles
    | some id =>
      refine .lift_bind fun relation _ => hscan _ ?_
      have hkey : ∀ k ∈ (Selection.ofFields [relation.primaryKey]).handles, near k := by
        rw [Selection.handles_ofFields]
        simp
      exact Reading.handles_asking hhandles hkey _ _ _
  · exact hscan reading hhandles

lemma stageNode_alike :
    Alike kept free (stageNode past e own node) (stageNode past' e' own node) := by
  cases node with
  | common queries =>
    refine .bind (.mapM fun h hh => (he.node h (hn h hh)).stage) fun names _ => ?_
    split
    · exact .of_throw _
    · exact .bind (setStage_alike hown _) fun _ _ => .of_pure _
  | _ =>
    refine .bind (stageWrite_alike he hn hg hk hown) fun name? _ => ?_
    cases name? with
    | some name => exact .of_pure _
    | none =>
      refine .bind (scanAt_alike he hn hg hk hown hkown hread []) fun scan _ => ?_
      refine .bind freshStage_blind.alike fun name _ => ?_
      refine .bind (addStage_blind _).alike fun _ _ => ?_
      exact .bind (setStage_alike hown name) fun _ _ => .of_pure _

/-- **The stage of a node.** -/
lemma stageAt_alike :
    Alike kept free (stageAt past e own node) (stageAt past' e' own node) := by
  refine .bind (stageOf_alike hkown) fun name? _ => ?_
  cases name? with
  | none => exact stageNode_alike he hn hg hk hown hkown hread
  | some name => exact .of_pure _

/-- **A node is planned alike** if all that it refers to is. -/
lemma ofNode_alike
    (hrelation : node.isMutation = true → (past'.push node).relationOf (.node own) = (past.push
      node).relationOf (.node own)) :
    (Earlier.ofNode past e node).AlikeAt kept free own (Earlier.ofNode past' e' node) where
  stage := stageAt_alike he hn hg hk hown hkown hread
  read := readAt_alike he hn hg hk hown hkown
  scan := scanAt_alike he hn hg hk hown hkown hread
  subselect := subselectAt_alike he hn hg hk hown hkown hread hrelation

end Stages

end StagedSql
