import StagedSql.Proofs.Plan.MarkedReadings

/-!
What stages put into a statement.
-/

namespace StagedSql

open List Plan

variable {g : Graph} {R : Relation → String → Prop} {earlier : Earlier} {s s' : PlanState}
  {r relation : Relation} {own : Handle}

/-! ### Writes -/

/-- What a payload writes, which is something unless a list is empty. -/
def Assigned.Marked (g : Graph) (R : Relation → String → Prop) (s s' : PlanState) :
    Assigned → Prop
  | .columns items => Fragment g R s s' noRow (items.flatMap fun item => item.value.marks)
  | .query names statement => Fragment g R s s' noRow statement.marks ∧ (g.Tidy → names ≠ [])

/-- What the statement of a write is: it writes to the relation of its node. -/
structure Written.Marked (g : Graph) (R : Relation → String → Prop) (s s' : PlanState) (node : Node)
    (statement : Statement) (relation : Relation) : Prop where
  target : ∃ id, node.target? = some id ∧ g.schema.relation id = .ok relation
  writes : ∀ select, statement ≠ .select select
  fragment : Fragment g R s s' noRow statement.marks

section Payloads

variable {source : Source} {L : List Mark} {a : Assigned} {e : Option Expr}

lemma parentKey_marks (hp : g.Permits R) (column : String) :
    Keeps (marking g R) (parentKey column) s fun e s' => Fragment g R s s' noRow e.marks := by
  refine .of_holds fun hs => .get_bind ?_
  cases hparents : s.parents with
  | nil => exact .of_throw
  | cons parent _ =>
    obtain ⟨r, hr, hstage, hkey⟩ := hs.parents parent (by rw [hparents]; simp)
    have hpermitted : R r parent.key := by
      rw [hkey]
      exact hp.key r hr
    have hname : IsStageName parent.stage := hs.isStageName hstage.mem
    have hreads : s.Reads (some parent.stage) r := by
      rintro _ ⟨⟩
      exact hstage
    refine (need_marks hreads hpermitted).bind fun _ s1 hx1 _ => .of_pure ?_
    rw [Expr.marks, Statement.marks, Select.single_marks]
    simp only [FromItem.marks, flatMap_cons, flatMap_nil, column_item_marks,
      append_nil, cons_append, nil_append]
    refine (Fragment.nil hx1).enclose (by simp) fun m hm => .inr ?_
    simp only [mem_cons, not_mem_nil, or_false] at hm
    rcases hm with rfl | rfl | rfl
    · refine ⟨.inr (.inl hname), ?_⟩
      rintro i ⟨⟩
      trivial
    · tauto
    · exact ⟨.inr ⟨_, mem_cons_self, rfl, .inl hname⟩, by simp⟩

lemma payloadExpr_marks (hp : g.Permits R) (he : earlier.Meets (markedNodes g R))
    (column : String) (v : PayloadValue) :
    Keeps (marking g R) (payloadExpr earlier column v) s fun e s' =>
      Fragment g R s s' noRow e.marks := by
  cases v with
  | value v =>
    refine .of_pure ?_
    exact .nil (.refl s)
  | query h =>
    refine ((he h).subselect s).bind fun query s1 _ hf => .of_pure ?_
    rwa [Expr.marks]
  | parentKey => exact parentKey_marks hp column

lemma Graph.Tidy.storedNames_ne_nil (ht : g.Tidy) (hr : g.Knows r) : r.storedNames ≠ [] := by
  rcases hr with hr | ⟨columns, rows, hn, hcolumns⟩
  · exact ht.stored r hr
  · obtain ⟨first, rest, rfl⟩ := exists_cons_of_ne_nil (ht.values columns rows hn).1
    simp [Relation.storedNames, hcolumns, Column.scalar, Column.isReverse]

/-- **A SELECT with its columns written out**, which are some if each relation has a stored
column. -/
lemma scanColumns_marks (hp : g.Permits R) {scan : Scan} (h : scan.Marked g R s s')
    {names : List String} (hnames : ListsNames scan.select.projection names) :
    (Assigned.query (scanColumns scan).1 (.select (scanColumns scan).2)).Marked g R s s' := by
  rw [scanColumns]
  split
  · rename_i hstar
    have hempty := hnames.projection_eq_nil.mpr (hnames.isStar_iff.mp hstar)
    obtain ⟨i, hi, hq, hallows⟩ := h.source
    have hstored : ∀ c ∈ scan.relation.storedNames, R scan.relation c :=
      hp.stored _ h.known
    have hmarks : ∀ m, m ∈ Select.marks { scan.select with
        projection := scan.relation.storedNames.map fun n => ⟨.of scan.qualifier n, none⟩ } ↔
        m ∈ scan.select.marks ++ (scan.relation.storedNames.map fun n =>
          (⟨.of scan.qualifier n, none⟩ : SelectItem)).flatMap SelectItem.marks := by
      intro m
      rw [← Select.mem_append_marks, hempty, nil_append]
    refine ⟨h.fragment.enclose (fun m hm => (hmarks m).mpr (mem_append_left _ hm)) ?_, ?_⟩
    · intro m hm
      rcases mem_append.mp ((hmarks m).mp hm) with hm | hm
      · exact .inl hm
      · obtain ⟨item, hitem, hm⟩ := mem_flatMap.mp hm
        obtain ⟨n, hn, rfl⟩ := mem_map.mp hitem
        rw [column_item_marks, mem_cons, mem_singleton] at hm
        rcases hm with rfl | rfl
        · exact .inr ⟨.inr ⟨_, h.known, .inl (hstored n hn)⟩, by simp⟩
        · refine .inr ⟨.inr ⟨i, ?_, hq, hallows n (hstored n hn)⟩, by simp⟩
          exact (hmarks _).mpr (mem_append_left _ hi)
    · exact fun ht => ht.storedNames_ne_nil h.known
  · rename_i hstar
    refine ⟨h.fragment, fun _ hempty => hstar (hnames.isStar_iff.mpr ?_)⟩
    rw [hnames.outputNames] at hempty
    exact eq_nil_iff_forall_not_mem.mpr fun name hmem =>
      ne_nil_of_mem (mem_distinct.mpr hmem) hempty

lemma Reading.Marked.page {r : Reading} (h : r.Marked g R s source) {ordering : List SortKey}
    (ho : ∀ relation, g.Gives source relation → ∀ key ∈ ordering, R relation key.column)
    (limit offset : Option UInt64) :
    Reading.Marked g R s source ⟨r.base, .empty, ordering, limit, offset, r.conditions⟩ :=
  ⟨h.valid, h.gives, fun relation hr => ho relation (h.gives relation hr),
    fun _ _ => Selection.links_of_nil rfl, h.exprs⟩

lemma Reading.Marked.typedFor {r : Reading} (h : r.Marked g R s source)
    (relation : Relation) : (r.typedFor relation).Marked g R s source := by
  rw [Reading.typedFor]
  split
  · rename_i columns rows types hbase
    obtain ⟨base, selection, ordering, limit, offset, conditions⟩ := r
    subst hbase
    exact ⟨⟨h.valid.1, by simp⟩, h.gives, h.ordering, h.links, h.exprs⟩
  · exact h

lemma changed_marks (hschema : g.schema.Accepted) (hr : relation ∈ g.schema.relations)
    (h : Fragment g R s s' (rowAround R relation.name relation) L) :
    Fragment g R s s' noRow (.item (.table relation.name none) :: L) := by
  have hitem : Fragment g R s s' (rowAround R relation.name relation)
      (.item (.table relation.name none) :: L) := by
    refine h.enclose (by simp_all) fun m hm => ?_
    rcases mem_cons.mp hm with rfl | hm
    · refine .inr ⟨.inl ⟨relation, hr, rfl⟩, ?_⟩
      rintro i ⟨⟩
      trivial
    · exact .inl hm
  refine hitem.close mem_cons_self rfl fun c hc => .inr (.inr fun r hr' hname => ?_)
  rwa [hschema.eq_of_name hr hr' hname]

variable (hschema : g.schema.Accepted) (hp : g.Permits R)
  (he : earlier.Meets (markedNodes g R))

include hschema hp he

lemma assignedOf_marks (relation : Relation) (payload : Payload) :
    Keeps (marking g R) (assignedOf g.schema earlier relation payload) s fun a s' =>
      a.Marked g R s s' := by
  refine assignedOf_keeps relation (fun entries _ => ?_) fun h _ => ?_
  · exact mapM_marks fun entry _ s1 _ =>
      (payloadExpr_marks hp he entry.1 entry.2).bind fun e s2 _ hf => .of_pure hf
  · refine ((he h).read false s).bind fun reading s1 hx1 hr => ?_
    refine ((scanReading_marks hschema hp he (hr.typedFor relation) []).and
      (scanReading_lists _ _)).mono fun scan s2 hx2 hpost _ => ?_
    obtain ⟨hselect, hcolumns⟩ := scanColumns_marks hp hpost.1.2 hpost.2
    exact ⟨hselect.after hx1 hx2, hcolumns⟩

omit hschema he in
/-- **A write** has the marks of its parts, besides those of itself and of the column that it gives
back. -/
lemma Fragment.write {statement : Statement} (h : Fragment g R s s' noRow L)
    (hr : r ∈ g.schema.relations) (hmarks : ∀ m, m ∈ statement.marks ↔
      m = .part statement ∨ m ∈ (Returning.ofColumns [r.primaryKey]).marks ∨ m ∈ L)
    (hgood : g.Tidy → statement.Grammatical) : Fragment g R s s' noRow statement.marks := by
  refine h.enclose (fun m hm => (hmarks m).mpr (.inr (.inr hm))) fun m hm => ?_
  rcases (hmarks m).mp hm with rfl | hm | hm
  · exact .inr ⟨hgood, by simp⟩
  · have hshows : m = .shows r.primaryKey := by
      simpa [Returning.ofColumns, distinct, Returning.marks, addOnce] using hm
    rw [hshows]
    exact .inr ⟨.inr ⟨r, .inl hr, .inl (hp.key r hr)⟩, by simp⟩
  · exact .inl hm

omit hschema he in
/-- **An INSERT** of what a payload writes. -/
lemma Assigned.Marked.insert (ha : a.Marked g R s s') (hr : r ∈ g.schema.relations) :
    Fragment g R s s' noRow (Statement.insert ⟨r.name, a.source.1, a.source.2,
      .ofColumns [r.primaryKey]⟩).marks := by
  have hsource : Fragment g R s s' noRow a.source.2.marks ∧
      (g.Tidy → a.source.2.Grammatical a.source.1) := by
    rcases a with (_ | ⟨item, rest⟩) | ⟨names, rows⟩
    · exact ⟨ha, fun _ => trivial⟩
    · refine ⟨?_, fun _ => ⟨by simp [Assigned.source], by simp, by simp [Assigned.source]⟩⟩
      change Fragment g R s s' noRow (InsertSource.rows [(item :: rest).map (·.value)]).marks
      rwa [InsertSource.marks, Expr.marksRows_eq, flatMap_singleton, flatMap_map]
    · exact ha
  refine hsource.1.write hp hr (fun m => ?_) fun ht => ⟨hsource.2 ht, ?_⟩
  · rw [Statement.marks, mem_cons, mem_append]
  · simp [Returning.ofColumns, distinct, addOnce]

lemma writeCondition_marks (hr : relation ∈ g.schema.relations) {condition : Option Condition}
    (hc : ∀ c, condition = some c → ∀ e ∈ c.exprs, e ∈ g.exprs) :
    Keeps (marking g R) (writeCondition g.schema earlier relation condition) s fun e s' =>
      Fragment g R s s' (rowAround R relation.name relation) (Expr.marksOption e) := by
  cases condition with
  | none => exact .of_pure (.nil (.refl s))
  | some c =>
    refine (toSql_marks hp he hschema (.inl hr) relation.name [relation.name] (hc c rfl)).bind
      fun e s1 _ hf => .of_pure ?_
    rwa [andCondition_marks]

omit he in
/-- **An UPDATE** of the rows that meet a condition. -/
lemma Assigned.Marked.update {s1 : PlanState} (ha : a.Marked g R s s1) (hr : r ∈ g.schema.relations)
    {set : Assignments} (hset : a.assignments r = .ok set) (hx : s.Continues g s1)
    (hx1 : s1.Continues g s')
    (he : Fragment g R s1 s' (rowAround R r.name r) (Expr.marksOption e)) :
    Fragment g R s s' noRow
      (Statement.update ⟨r.name, set, e, .ofColumns [r.primaryKey]⟩).marks := by
  have hmarks : Fragment g R s s1 noRow set.marks ∧ (g.Tidy → set.Grammatical) := by
    rcases a with (_ | ⟨item, rest⟩) | ⟨names, rows⟩ <;> cases hset
    · refine ⟨?_, fun _ => by simp [Assignments.Grammatical]⟩
      rwa [Assignments.marks, Assignment.marksEach_eq]
    · exact ha
  have hparts := changed_marks hschema hr (hmarks.1.anywhere.append hx hx1 he)
  refine hparts.write hp hr (fun m => ?_) fun ht => ⟨hmarks.2 ht, ?_⟩
  · simp only [Statement.marks, mem_cons, mem_append]
    tauto
  · simp [Returning.ofColumns, distinct, addOnce]

omit he in
/-- **A DELETE** of the rows that meet a condition. -/
lemma delete_marks (hr : r ∈ g.schema.relations)
    (he : Fragment g R s s' (rowAround R r.name r) (Expr.marksOption e)) :
    Fragment g R s s' noRow (Statement.delete ⟨r.name, e, .ofColumns [r.primaryKey]⟩).marks := by
  refine (changed_marks hschema hr he).write hp hr (fun m => ?_) fun _ => ?_
  · simp only [Statement.marks, mem_cons, mem_append]
    tauto
  · simp [Statement.Grammatical, Returning.ofColumns, distinct, addOnce]

/-- The statement of a write. -/
lemma writeStatement_marks {node : Node} (hn : ∀ e ∈ node.exprs, e ∈ g.exprs) :
    Keeps (marking g R) (writeStatement g.schema earlier node) s fun written s' =>
      ∀ statement relation, written = some (statement, relation) →
        Written.Marked g R s s' node statement relation := by
  refine (writeStatement_made (assignedOf_marks hschema hp he) fun r hr s1 =>
    writeCondition_marks hschema hp he hr fun c hc => Node.exprs_of_condition hc ▸ hn).mono
      fun written s' _ hmade statement r hw => ?_
  cases hmade.2 statement r hw with
  | insert hr ha => exact ⟨⟨_, rfl, hr⟩, by simp, ha.insert hp (Schema.mem_of_relation hr)⟩
  | update hr hx ha hset hx1 he =>
    exact ⟨⟨_, rfl, hr⟩, by simp, ha.update hschema hp (Schema.mem_of_relation hr) hset hx hx1 he⟩
  | delete hr he =>
    exact ⟨⟨_, rfl, hr⟩, by simp, delete_marks hschema hp (Schema.mem_of_relation hr) he⟩

end Payloads

/-! ### New stages -/

section Stages

variable {stage : Stage} {p : ParentRow} {statement : Statement}

/-- **A stage is added** under the next name. -/
lemma PlanState.Marked.add (hs : s.Marked g R) (ha : s.Adds own stage s')
    (hgives : g.Gives (.node own) stage.relation) (hstage : stage.Marked g R s) :
    s'.Marked g R := by
  have hx := ha.lengthens
  -- the name is a new one, so that it leads to the stage
  have hnew : s'.StageOf stage.name stage.relation := by
    have hnone : s.stages.find? (·.name == stage.name) = none := by
      rw [find?_eq_none]
      intro other hother hsame
      have hmem : other.name ∈ s.stageNames := mem_map_of_mem hother
      rw [hs.names, beq_iff_eq.mp hsame, ha.name] at hmem
      obtain ⟨i, hi, he⟩ := mem_map.mp hmem
      have := (numberedName_inj.mp he).2
      rw [mem_range] at hi
      omega
    rw [StageOf, ha.stages, find?_append, hnone]
    simp
  have hnoted : ∀ {old new : List (Handle × String)},
      (∀ e ∈ new, e ∈ old ∨ e = (own, stage.name)) → (∀ e ∈ old, s.StagedFor g e.1 e.2) →
      ∀ e ∈ new, s'.StagedFor g e.1 e.2 := by
    intro old new hadded hold e he
    rcases hadded e he with he | rfl
    · exact (hold e he).mono hx
    · exact ⟨_, hgives, hnew⟩
  refine ⟨ha.numbered_names hs.names, ha.forall_stage
    (fun st hst => PlanState.Stage.Marked.mono (hs.stages st hst) hx)
    (PlanState.Stage.Marked.mono hstage hx), hnoted ha.staged hs.staged,
    hnoted ha.pages hs.pages, fun e he => ?_, ?_, ?_⟩
  · obtain ⟨e', he', hsame⟩ := ha.exists_written e he
    rw [← hsame]
    exact ⟨fun m hm => ha.mem_of_mem ((hs.written e' he').1 m hm), (hs.written e' he').2⟩
  · rw [ha.required]
    exact fun name columns hl c hc => (hs.required name columns hl c hc).imp fun r hr =>
      ⟨hr.1.mono hx, hr.2⟩
  · rw [ha.parents]
    exact fun p hp => (hs.parents p hp).imp fun r hr => ⟨hr.1, hr.2.1.mono hx, hr.2.2⟩

lemma PlanState.Adds.stageOf (ha : s.Adds own stage s') (hs' : s'.Marked g R) :
    s'.StageOf stage.name stage.relation := by
  refine hs'.stageOf ?_
  rw [ha.stages]
  exact mem_concat_self

/-- **What was planned becomes a stage.** -/
lemma Fragment.staged {s1 : PlanState} (h : Fragment g R s s1 noRow stage.statement.marks)
    (hx : s.Continues g s1) (ha : s1.Adds own stage s') : s.Continues g s' := by
  refine ⟨hx.toLengthens.trans ha.lengthens, ha.parents.trans hx.parents, fun hg => ?_⟩
  have hmem : ∀ m, m ∈ [] ++ s.added s' → m ∈ stage.statement.marks ++ s.added s1 := by
    intro m hm
    rw [PlanState.added_trans hx.toLengthens ha.lengthens, PlanState.added_stage ha.stages] at hm
    simp only [nil_append, mem_append] at hm ⊢
    tauto
  have hspans := h.spans hg
  exact ⟨fun i hi => (hspans.within i (hmem _ hi)).mono (.refl _) ha.lengthens.names,
    fun hi hi' => hspans.tables (hmem _ hi) (hmem _ hi'),
    fun hi hi' => hspans.values (hmem _ hi) (hmem _ hi')⟩

lemma setWritten_marks (stage column : String) {members : List String}
    (h : ∀ m ∈ members, m ∈ s.stageNames) (hempty : members = [] → ¬ g.Tidy) :
    Keeps (marking g R) (setWritten stage column members) s fun _ _ => True := by
  let s1 : PlanState := { s with written := ((stage, column), members) :: s.written }
  have hx : s.Continues g s1 := .of_stages ⟨.refl _, .of_stages rfl⟩ rfl rfl
  refine .of_run (show _ = Except.ok (_, s1) from rfl) (fun hs => ⟨hs.names, ?_, hs.staged,
    hs.pages, ?_, hs.required, hs.parents⟩) hx trivial
  · exact fun st hst => PlanState.Stage.Marked.mono (hs.stages st hst) hx.toLengthens
  · intro e he
    rcases mem_cons.mp he with rfl | he
    · exact ⟨h, hempty⟩
    · exact hs.written e he

lemma PlanState.Marked.pushParent (hs : s.Marked g R) (hr : r ∈ g.schema.relations)
    (hstage : s.StageOf p.stage r) (hkey : p.key = r.primaryKey) :
    PlanState.Marked g R { s with parents := p :: s.parents } := by
  refine ⟨hs.names, fun st hst => ?_, hs.staged, hs.pages, hs.written, hs.required, ?_⟩
  · exact PlanState.Stage.Marked.mono (hs.stages st hst) ⟨.refl _, .of_stages rfl⟩
  · intro p' hp'
    rcases mem_cons.mp hp' with rfl | hp'
    · exact ⟨r, hr, hstage, hkey⟩
    · exact hs.parents p' hp'

/-- **With a row around it**: the row is put on the stack of parents and taken from it again. -/
lemma Plan.Keeps.within_parent {x : Plan PUnit} (hr : r ∈ g.schema.relations)
    (hstage : s.StageOf p.stage r) (hkey : p.key = r.primaryKey)
    {post : PlanState → Prop}
    (h : Keeps (marking g R) x { s with parents := p :: s.parents } fun _ => post) :
    Keeps (marking g R) (do
        modify fun st => { st with parents := p :: st.parents }
        x
        modify fun st => { st with parents := st.parents.tail }) s fun _ _ => True := by
  intro hs
  refine Ensures.run_bind rfl ?_
  refine (h (hs.pushParent hr hstage hkey)).bind fun _ s2 hpost => ?_
  obtain ⟨hs2, hx2, -⟩ := hpost
  have hparents : s2.parents = p :: s.parents := hx2.parents
  rintro _ s3 ⟨⟩
  refine ⟨⟨hs2.names, fun st hst => ?_, hs2.staged, hs2.pages, hs2.written, hs2.required, ?_⟩,
    ⟨⟨hx2.names, hx2.stages⟩, congrArg List.tail hparents, fun hg => ?_⟩, trivial⟩
  · exact PlanState.Stage.Marked.mono (hs2.stages st hst) ⟨.refl _, .of_stages rfl⟩
  · exact fun p' hp' => hs2.parents p' (mem_of_mem_tail hp')
  · exact ⟨(hx2.spans hg).within, (hx2.spans hg).tables, (hx2.spans hg).values⟩

lemma PlanState.Marked.addWrite {s0 : PlanState} (hs : s.Marked g R) {node : Node}
    (hnode : g.node own = .ok node) (hw : Written.Marked g R s0 s node statement relation)
    (ha : s.Adds own ⟨s.nextStage, statement, relation, none, none⟩ s') : s'.Marked g R := by
  obtain ⟨⟨id, htarget, hid⟩, hwrites, hf⟩ := hw
  exact hs.add ha (.write hnode htarget hid) ⟨.inl (Schema.mem_of_relation hid), hf.good,
    fun select q hselect => (hwrites select hselect).elim, by rintro _ ⟨⟩⟩

end Stages

/-! ### Nodes -/

lemma exists_of_getLast? {α β : Type} {P : α → β → Prop} {l : List α} {m : List β}
    (h : Forall₂ P l m) {b : β} (hb : m.getLast? = some b) :
    ∃ a, l.getLast? = some a ∧ P a b := by
  have hreverse := forall₂_reverse_iff.mpr h
  rw [getLast?_eq_head?_reverse] at hb
  rw [getLast?_eq_head?_reverse]
  generalize l.reverse = l' at *
  generalize m.reverse = m' at *
  cases hreverse with
  | nil => cases hb
  | cons hab _ =>
    cases hb
    exact ⟨_, rfl, hab⟩

section Nodes

variable {past : Graph} {node : Node}

lemma marking_links (he : earlier.Meets (markedNodes g R)) (hr : relation ∈ g.schema.relations)
    (stage : String) : Links (marking g R) earlier stage relation (·.StageOf stage relation)
      (· ∈ ·.stageNames) (fun _ _ => True) (¬ g.Tidy) where
  known_mono hx h := h.mono hx.toLengthens
  member_mono hx h := hx.toLengthens.mem_stageNames _ h
  done_mono _ _ := trivial
  found hs h := by
    obtain ⟨r, -, hstage⟩ := hs.staged _ h
    exact hstage.mem
  child h s := ((he h).stage s).mono fun name s' _ hstaged => by
    obtain ⟨r, -, hstage⟩ := hstaged
    exact ⟨hstage.mem, trivial⟩
  set column _ h hempty := setWritten_marks stage column h hempty
  pushed h := h
  within hstage h := (Keeps.within_parent hr hstage rfl h).mono fun _ _ _ _ _ _ => trivial

lemma stage_reading_marks {source : Source} {name : String} (hgives : g.Gives source r)
    (hstage : s.StageOf name r) : (Reading.ofBase (.stage name)).Marked g R s source := by
  refine ⟨hstage.mem, fun r' hr' => ?_, by simp [Reading.ofBase],
    fun _ _ => Selection.links_of_nil rfl, by simp [Reading.ofBase]⟩
  rwa [PlanState.StageOf.unique hr' hstage]

/-- **A SELECT becomes a stage** after it was planned. -/
lemma staged_marks {x : Plan Scan} (hx : Keeps (marking g R) x s fun scan s' =>
      g.Gives (.node own) scan.relation ∧ scan.Marked g R s s') :
    Keeps (marking g R) (x >>= fun scan => scan.toStage own) s
        (fun name s' => s'.StagedFor g own name) ∧
      Keeps (marking g R) (x >>= fun scan => scan.toPage own) s
        fun name s' => s'.StagedFor g own name := by
  have hadd : ∀ {y : Scan → Plan String}, (∀ scan s1 name s', y scan s1 = .ok (name, s') →
      name = s1.nextStage ∧ s1.Adds own (s1.stageOf scan) s') →
      Keeps (marking g R) (x >>= y) s fun name s' => s'.StagedFor g own name := by
    intro y hy hs name s' hrun
    obtain ⟨scan, s1, hscan, hstage⟩ := bind_eq_ok hrun
    obtain ⟨hs1, hx1, hgives, hmarked⟩ := hx hs scan s1 hscan
    obtain ⟨rfl, ha⟩ := hy scan s1 name s' hstage
    have hs' : s'.Marked g R := hs1.add ha hgives ⟨hmarked.known, ?_, ?_, hmarked.reads⟩
    · have hselect : Fragment g R s s1 noRow (s1.stageOf scan).statement.marks := hmarked.fragment
      exact ⟨hs', hselect.staged hx1 ha, _, hgives, ha.stageOf hs'⟩
    · change ∀ m ∈ Statement.marks (.select scan.select), _
      exact hmarked.fragment.good
    · rintro select q ⟨⟩ ⟨⟩
      exact hmarked.source
  exact ⟨hadd fun _ _ _ _ => Scan.toStage_adds, hadd fun _ _ _ _ => Scan.toPage_adds⟩

lemma Graph.exprs_of_node (hnode : g.node own = .ok node) : ∀ e ∈ node.exprs, e ∈ g.exprs :=
  fun _ hexpr => mem_flatMap.mpr ⟨node, Graph.mem_of_node hnode, hexpr⟩

variable (hschema : g.schema.Accepted) (hp : g.Permits R) (he : earlier.Meets (markedNodes g R))
  (hnode : g.node own = .ok node) (hpast : past.schema = g.schema)

include hschema hp he hnode hpast

lemma stageWrite_marks :
    Keeps (marking g R) (stageWrite past earlier own node) s fun name s' =>
      ∀ n, name = some n → s'.StagedFor g own n := by
  have hwrite := writeStatement_marks (s := s) hschema hp he (Graph.exprs_of_node hnode)
  rw [← hpast] at hwrite
  refine stageWrite_keeps hwrite (fun _ _ _ => by simp) fun statement relation s1 hs1 hx1 hmid => ?_
  have ha := s1.addWrite_adds own statement relation
  have hw := hmid statement relation rfl
  obtain ⟨id, htarget, hid⟩ := hw.target
  have hs2 := hs1.addWrite hnode hw ha
  have hstage := ha.stageOf hs2
  refine ⟨hs2, hw.fragment.staged hx1 ha, ?_⟩
  refine (linkWrite_links (marking_links he (Schema.mem_of_relation hid) s1.nextStage) hstage
    fun id payload reverse hinsert e hmem hempty ht => ?_).mono fun _ s3 hx3 _ => ?_
  · exact ht.rows id payload reverse (hinsert ▸ Graph.mem_of_node hnode) e hmem hempty
  · rintro n ⟨⟩
    exact ⟨relation, .write hnode htarget hid, hstage.mono hx3.toLengthens⟩

/-- Nodes as readings. -/
lemma marks_readRules : (markedNodes g R).ReadRules past earlier own node where
  before := he
  staged_mono hx h := h.mono hx.toLengthens
  scope_mono _ _ := trivial
  scope_nil _ := trivial
  staged hs h := hs.staged _ h
  paged _ hs h := hs.pages _ h
  write _ _ := stageWrite_marks hschema hp he hnode hpast
  page {sel r s0 s} hsel _ _ _ _ _ hr := by
    rw [hsel] at hnode
    rw [hpast]
    have hpage := hr.page (fun r => hp.ordering own sel r hnode) sel.limit sel.offset
    exact (staged_marks ((scanReading_marks hschema hp he hpage []).mono fun scan s2 _ hpost =>
      ⟨.select hnode hpost.1, hpost.2⟩)).2
  ofRelation id s := ⟨trivial, fun r hr => .relation hr, by simp [Reading.ofBase],
    fun _ _ => Selection.links_of_nil rfl, by simp [Reading.ofBase]⟩
  ofStage h := by
    obtain ⟨r, hgives, hstage⟩ := h
    exact stage_reading_marks hgives hstage
  ofPage {sel name s} hsel h := by
    rw [hsel] at hnode
    obtain ⟨r, hgives, hstage⟩ := h
    have hr := stage_reading_marks (R := R) hgives hstage
    refine ⟨hr.valid, hr.gives, fun r' hr' => ?_, fun r' hr' => ?_, hr.exprs⟩
    · exact hp.ordering own sel r' hnode ((hr.gives r' hr').at_node hnode)
    · exact hp.links own sel r' hnode ((hr.gives r' hr').at_node hnode)
  select {_ sel r s} hsel _ hr := by
    rw [hsel] at hnode
    exact ⟨hr.valid, fun r hshows => .select hnode (hr.gives r hshows),
      fun r hshows => hp.ordering own sel r hnode (hr.gives r hshows),
      fun r hshows => hp.links own sel r hnode (hr.gives r hshows), hr.exprs⟩
  filter hfilter hr := by
    rw [hfilter] at hnode
    exact ⟨hr.valid, fun r hshows => .filter hnode (hr.gives r hshows), hr.ordering, hr.links,
      forall_mem_append.mpr ⟨hr.exprs, forall_mem_singleton.mpr (Graph.exprs_of_node hnode)⟩⟩
  common hcommon hlast _ hr := by
    rw [hcommon] at hnode
    exact ⟨hr.valid, fun r hshows => .common hnode hlast (hr.gives r hshows), hr.ordering, hr.links,
      hr.exprs⟩
  values {_ columns rows} s hvalues := by
    rw [hvalues] at hnode
    refine ⟨⟨Graph.mem_of_node hnode, by simp⟩, ?_, by simp [Reading.ofBase],
      fun _ _ => Selection.links_of_nil rfl, by simp [Reading.ofBase]⟩
    rintro ⟨name, given⟩ hshows
    obtain rfl : given = columns.map Column.scalar := hshows
    exact .values name hnode
  key _ _ _ hr := ⟨hr.valid, hr.gives, hr.ordering, fun r _ => Selection.links_of_nil (by
    simp [Selection.ofFields, Selection.addField, Selection.empty, hasKey]), hr.exprs⟩
  scan {r s0 s scope} hx hr _ := by
    rw [hpast]
    refine (scanReading_marks hschema hp he hr scope).mono fun scan s2 hx2 hpost => ?_
    obtain ⟨hgives, hscan⟩ := hpost
    exact ⟨hgives, hscan.known, hscan.reads, hscan.source, hscan.fragment.after hx hx2⟩
  select_of_scan {s scan s'} h := by
    change Fragment _ _ _ _ _ (Statement.marks (.select scan.select))
    exact h.2.fragment

/-- Nodes as readings and stages. -/
lemma marks_meetsAt : (Earlier.ofNode past earlier node).MeetsAt (markedNodes g R) own := by
  have hr := marks_readRules hschema hp he hnode hpast
  refine ⟨fun s => stageAt_meets ⟨fun h => (he h).stage, hr.staged_mono, hr.staged, hr.write,
    fun {s} _ _ => ?_, fun {queries names last s} hcommon hnames hlast => ?_⟩,
    fun enclosed s => readAt_meets hr enclosed, fun scope s h => scanAt_meets hr h,
    fun s => subselectAt_meets hr⟩
  · exact (staged_marks (scanAt_meets hr trivial)).1
  · rw [hcommon] at hnode
    obtain ⟨h, hquery, r, hgives, hstage⟩ := exists_of_getLast? hnames hlast
    have hown : g.Gives (.node own) r := .common hnode hquery hgives
    have hx : s.Continues g { s with staged := (own, last) :: s.staged } :=
      .of_stages ⟨.refl _, .of_stages rfl⟩ rfl rfl
    refine .of_run rfl (fun hs => ?_) hx ⟨r, hown, hstage⟩
    exact ⟨hs.names, fun st hst => PlanState.Stage.Marked.mono (hs.stages st hst) hx.toLengthens,
      forall_mem_cons.mpr ⟨⟨r, hown, hstage⟩, hs.staged⟩, hs.pages, hs.written, hs.required,
      hs.parents⟩

end Nodes

/-- **All nodes of a graph.** -/
lemma planner_marks (hschema : g.schema.Accepted) (hp : g.Permits R) :
    g.planner.Meets (markedNodes g R) :=
  planner_meets fun _ _ _ _ hnodes he =>
    marks_meetsAt hschema hp he (Graph.node_of_append hnodes) rfl

end StagedSql
