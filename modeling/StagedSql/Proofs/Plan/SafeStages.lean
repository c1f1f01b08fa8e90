import StagedSql.Proofs.Plan.MarkedStages
import StagedSql.Proofs.Plan.SafeReadings

/-!
Stages that are planned without surprise.

A node of a plain part was checked against the nodes before it, which have been planned. A row that
takes the key of the row around it is staged by that row, whose key is on the stack of parents then.
-/

namespace StagedSql

open List Plan Selection

variable {g past : Graph} {part : List (Handle × Node)} {earlier : Earlier} {s : PlanState}
  {relation : Relation} {node : Node} {h : Handle}

/-! ### Writes -/

section Writes

variable {condition : Option Condition}

lemma Payload.mem_handles {entries : List (String × PayloadValue)} {name : String}
    (he : (name, .query h) ∈ entries) : h ∈ (Payload.values entries).handles :=
  mem_flatMap.mpr ⟨_, he, mem_singleton.mpr rfl⟩

lemma parentKey_safe (hs : s.parents ≠ []) (column : String) :
    Safe g part (parentKey column) s := by
  obtain ⟨parent, rest, hparents⟩ := exists_cons_of_ne_nil hs
  refine .get_bind ?_
  rw [hparents]
  exact ((need_total _ _).bind fun _ => .pure _).safe

lemma assignedOf_columns {schema : Schema} (entries : List (String × PayloadValue)) :
    Ensures (assignedOf schema earlier relation (.values entries)) s fun a _ =>
      ∃ items, a = .columns items ∧ items.length = entries.length := by
  have hitems : Ensures (entries.mapM (assignment earlier)) s fun items _ =>
      items.length = entries.length := by
    induction entries generalizing s with
    | nil => exact .of_pure rfl
    | cons entry rest ih =>
      rw [mapM_cons]
      exact .bind_any fun _ _ => ih.bind fun _ _ h => .of_pure (congrArg Nat.succ h)
  exact hitems.bind fun items _ h => .of_pure ⟨items, rfl, h⟩

variable (hschema : g.schema.Accepted) (he : earlier.Safe g past part)

include he

lemma payloadExpr_safe (column : String) {v : PayloadValue}
    (hq : ∀ h, v = .query h → past.Ready part h) (hkey : v.isKey = true → s.parents ≠ []) :
    Safe g part (payloadExpr earlier column v) s := by
  cases v with
  | value v => exact .pure _
  | query h => exact (he.subselect h s (hq h rfl)).bind_pure
  | parentKey => exact parentKey_safe (hkey rfl) column

/-- **Values that are written into columns.** -/
lemma assignedOf_safe (relation : Relation) (entries : List (String × PayloadValue))
    (hq : ∀ h ∈ (Payload.values entries).handles, past.Ready part h)
    (hkey : (Payload.values entries).takesKey = true → s.parents ≠ []) :
    Safe g part (assignedOf g.schema earlier relation (.values entries)) s := by
  refine Safe.bind_total (.mapM (fun e _ s1 _ => ?_) fun e hmem s1 hx1 => ?_) fun _ => .pure _
  · exact (payloadExpr_marks (permits_all g) he.marks e.1 e.2).bind fun _ _ _ _ => .of_pure trivial
  · refine (payloadExpr_safe he e.1 (fun h hv => hq h ?_) fun hv => ?_).bind_pure
    · have hentry : (e.1, PayloadValue.query h) ∈ entries := by
        rwa [← hv]
      exact Payload.mem_handles hentry
    · rw [hx1.parents]
      exact hkey (any_eq_true.mpr ⟨e, hmem, hv⟩)

include hschema

lemma writeCondition_safe (hr : relation ∈ g.schema.relations)
    (hc : ∀ c, condition = some c → c.Asks past part)
    (hexprs : ∀ c, condition = some c → ∀ e ∈ c.exprs, e ∈ g.exprs) :
    Safe g part (writeCondition g.schema earlier relation condition) s := by
  cases condition with
  | none => exact .pure _
  | some c =>
    exact (toSqlIn_safe hschema he (.inl hr) _ _ (hc c rfl) (hexprs c rfl)).bind_pure

/-- **An UPDATE may have nothing to write.** -/
lemma updateStatement_safe (hr : relation ∈ g.schema.relations)
    (entries : List (String × PayloadValue))
    (hq : ∀ h ∈ (Payload.values entries).handles, past.Ready part h)
    (hkey : (Payload.values entries).takesKey = true → s.parents ≠ [])
    (hc : ∀ c, condition = some c → c.Asks past part)
    (hexprs : ∀ c, condition = some c → ∀ e ∈ c.exprs, e ∈ g.exprs)
    (hempty : entries = [] → (Error.invalidValue relation.name .nothingToUpdate).Expected g part) :
    Safe g part (updateStatement g.schema earlier relation (.values entries) condition) s := by
  refine .bind ((assignedOf_marks hschema (permits_all g) he.marks relation (.values entries)).and
    (assignedOf_columns entries)) (assignedOf_safe he relation entries hq hkey) ?_
  rintro _ s1 hx1 ⟨-, items, rfl, hlength⟩
  cases items with
  | nil => exact .throw_bind (hempty (length_eq_zero_iff.mp hlength.symm))
  | cons item rest =>
    exact .lift_bind rfl (writeCondition_safe hschema he hr hc hexprs).bind_pure

end Writes

/-! ### Nodes -/

section Nodes

variable {stage : String}

lemma Node.asks_of_keys {c : Condition} (hm : (h, node) ∈ part)
    (hkeys : ∀ key ∈ c.keys, key ∈ node.keys) (hready : ∀ k ∈ c.handles, past.Ready part k) :
    c.Asks past part :=
  ⟨fun key hkey => ⟨_, hm, hkeys key hkey⟩, hready⟩

lemma ready_of_open {own : Handle} (hp : g.PlainPart part) (hm : (own, node) ∈ part)
    (hh : h ∈ node.handles) (ho : past.Open h) : past.Ready part h :=
  ⟨ho, hp.closed _ hm h hh⟩

lemma linkForward_total (hpast : past.Sound) (stage : String) (relation : Relation)
    (entries : List (String × PayloadValue))
    (hq : ∀ h ∈ (Payload.values entries).handles, past.Has h) :
    Total (linkForward past stage relation entries) := by
  induction entries with
  | nil => exact .pure _
  | cons entry rest ih =>
    obtain ⟨column, v⟩ := entry
    have hrest : Total (linkForward past stage relation rest) :=
      ih fun h hh => hq h (mem_append_right _ hh)
    cases v with
    | value v => exact hrest
    | parentKey => exact hrest
    | query h =>
      rw [linkForward]
      obtain ⟨found, hfound⟩ := hq h (Payload.mem_handles mem_cons_self)
      split
      · refine .lift_bind hfound ?_
        split
        · rename_i inner _ _ _ _
          have hchecked : SelectNode.Checked past ⟨.node inner, _, _, _, _⟩ :=
            hpast.checked hfound
          obtain ⟨node, hnode, -⟩ : past.Open inner := hchecked.source
          refine .lift_bind hnode ?_
          split
          · have hstage : Total (stageOf? inner) := fun _ => ⟨_, rfl⟩
            refine hstage.bind fun name => ?_
            cases name with
            | none => exact hrest
            | some name =>
              tauto
          · exact hrest
        · exact hrest
      · exact hrest

variable (hg : g.Sound) (he : earlier.Safe g past part)

include he in
/-- **Rows that refer back to a row are staged with it around them**, so that they can take its
key. -/
lemma stageReverse_safe (hr : relation ∈ g.schema.relations) (hstage : s.StageOf stage relation)
    {reverse : List (String × List Handle)} (htidy : g.Tidy → ∀ e ∈ reverse, e.2 ≠ [])
    (hreverse : ∀ e ∈ reverse, ∀ h ∈ e.2, past.Has h ∧ h ∈ part.map Prod.fst) :
    Safe g part (stageReverse earlier stage relation reverse) s := by
  rw [stageReverse]
  split
  · refine .run_bind rfl (fun hs => hs.pushParent hr hstage rfl) ?_
    refine Safe.bind_total ?_ fun _ _ => ⟨_, rfl⟩
    refine .forM (fun e hmem s1 hx1 => ?_) fun e hmem s1 hx1 => ?_
    · have hpushed : PlanState.StageOf
          { s with parents := ⟨stage, relation.primaryKey⟩ :: s.parents } stage relation := hstage
      have hstage1 := hpushed.mono hx1.toLengthens
      exact (stageChildren_links (marking_links he.marks hr stage) e.1 e.2 hstage1
        fun hempty ht => htidy ht e hmem hempty).forget
    · have hparents : s1.parents ≠ [] := by
        rw [hx1.parents]
        exact cons_ne_nil _ _
      refine Safe.bind_total (.mapM (fun h _ s2 _ => ((he.marks h).stage s2).forget) ?_)
        fun _ _ => ⟨_, rfl⟩
      intro h hh s2 hx2
      obtain ⟨hhas, hin⟩ := hreverse e hmem h hh
      refine he.stage h s2 hhas hin (.inr ?_)
      rwa [hx2.parents]
  · exact .pure _

variable (hp : g.PlainPart part) (hw : (past.push node).Within g)
  (hm : (past.nextHandle, node) ∈ part)

include hg he hp hw hm

lemma writeStatement_safe (hkey : node.takesKey = true → s.parents ≠ []) :
    Safe g part (writeStatement g.schema earlier node) s := by
  have hchecked : node.Checked past := hg.nodes past node hw
  have hschema : past.schema = g.schema := hw.schema.symm
  have hexprs := Graph.exprs_of_node hw.node_eq
  have hplain := hp.plain _ hm
  cases node with
  | insert id payload reverse =>
    cases payload with
    | query h => cases hplain
    | values entries =>
      obtain ⟨⟨r, hr⟩, hopen, -⟩ := hchecked
      rw [hschema] at hr
      refine .lift_bind hr ?_
      rw [insertStatement_eq, bind_assoc]
      refine (assignedOf_safe he r entries (fun h hh => ?_) hkey).bind_pure
      exact ready_of_open hp hm (mem_append_left _ hh) (hopen h hh)
  | update id payload condition =>
    cases payload with
    | query h => cases hplain
    | values entries =>
      obtain ⟨⟨r, hr⟩, hopen, -, hcondition⟩ := hchecked
      rw [hschema] at hr
      refine .lift_bind hr ?_
      refine Safe.bind_total (updateStatement_safe hg.schema he (Schema.mem_of_relation hr)
        entries (fun h hh => ?_) hkey ?_ ?_ ?_) fun _ => .pure _
      · exact ready_of_open hp hm (mem_append_left _ hh) (hopen h hh)
      · rintro c rfl
        exact Node.asks_of_keys hm (fun _ h => h) fun k hk =>
          ready_of_open hp hm (mem_append_right _ hk) (hcondition k hk)
      · rintro c rfl
        exact hexprs
      · rintro rfl
        exact ⟨_, hm, id, condition, r, rfl, hr, rfl⟩
  | delete id condition =>
    obtain ⟨⟨r, hr⟩, hcondition⟩ := hchecked
    rw [hschema] at hr
    refine .lift_bind hr ?_
    refine Safe.bind_total ?_ fun _ => .pure _
    refine Safe.bind_total
      (writeCondition_safe hg.schema he (Schema.mem_of_relation hr) ?_ ?_) fun _ => .pure _
    · rintro c rfl
      exact Node.asks_of_keys hm (fun _ h => h) fun k hk =>
        ready_of_open hp hm hk (hcondition k hk)
    · rintro c rfl
      exact hexprs
  | _ => exact .pure _

lemma linkWrite_safe (hr : relation ∈ g.schema.relations) (hstage : s.StageOf stage relation) :
    Safe g part (linkWrite past earlier stage relation node) s := by
  have hpast : past.Sound := hg.of_within ((Graph.within_push past node).trans hw)
  have hchecked : node.Checked past := hg.nodes past node hw
  have hplain := hp.plain _ hm
  cases node with
  | insert id payload reverse =>
    cases payload with
    | query h => cases hplain
    | values entries =>
      obtain ⟨-, hopen, hback⟩ := hchecked
      refine .bind (linkForward_links (marking_links he.marks hr stage) entries hstage)
        (linkForward_total hpast stage relation entries fun h hh => (hopen h hh).has).safe
        fun _ s1 hx1 _ => ?_
      refine stageReverse_safe he hr (hstage.mono hx1.toLengthens)
        (fun ht => ht.rows id _ reverse (Graph.mem_of_node hw.node_eq)) fun e hmem h hh => ?_
      refine ⟨hback e hmem h hh, hp.closed _ hm h (mem_append_right _ ?_)⟩
      exact mem_flatMap.mpr ⟨e, hmem, hh⟩
  | update id payload condition =>
    cases payload with
    | query h => cases hplain
    | values entries =>
      exact (linkForward_total hpast stage relation entries fun h hh =>
        (hchecked.2.1 h hh).has).safe
  | _ => exact .pure _

lemma stageWrite_safe (hkey : node.takesKey = true → s.parents ≠ []) :
    Safe g part (stageWrite past earlier past.nextHandle node) s := by
  have hpast : past.schema = g.schema := hw.schema.symm
  rw [stageWrite, hpast]
  refine .bind (writeStatement_marks hg.schema (permits_all g) he.marks
    (Graph.exprs_of_node hw.node_eq)) (writeStatement_safe hg he hp hw hm hkey)
    fun written s1 hx1 hwritten => ?_
  cases written with
  | none => exact .pure _
  | some pair =>
    obtain ⟨statement, relation⟩ := pair
    have hwrite := hwritten statement relation rfl
    obtain ⟨id, -, hid⟩ := hwrite.target
    let name := numberedName 't' (s1.names.stages + 1)
    intro hs1
    have ha := s1.addWrite_adds past.nextHandle statement relation
    have hs2 := hs1.addWrite hw.node_eq hwrite ha
    have hlink : Safe g part (linkWrite past earlier name relation node >>= fun _ =>
        pure (some name)) (s1.addWrite past.nextHandle statement relation) :=
      (linkWrite_safe hg he hp hw hm (Schema.mem_of_relation hid)
        (ha.stageOf hs2)).bind_pure
    exact hlink hs2

end Nodes

/-! ### Readings -/

lemma Earlier.Safe.readRules (he : earlier.Safe g past part) (hg : g.Sound)
    (hw : (past.push node).Within g) :
    (markedNodes g fun _ _ => True).ReadRules past earlier past.nextHandle node :=
  marks_readRules hg.schema (permits_all g) he.marks hw.node_eq hw.schema.symm

section Selects

variable {sel : SelectNode} {source : Source}

lemma readSource_safe (he : earlier.Safe g past part) (enclosed : Bool) (hs : source.On past)
    (hin : ∀ h ∈ source.handles, h ∈ part.map Prod.fst) :
    Safe g part (readSource earlier enclosed source) s := by
  cases source with
  | relation id => exact .pure _
  | node h => exact he.read enclosed h s ⟨hs, hin h (.head _)⟩

/-- A source that is there: its node is in the part, and was checked against nodes that are
there. -/
def Source.Asked (g past : Graph) (part : List (Handle × Node)) : Source → Prop
  | .relation id => ∃ r, g.schema.relation id = .ok r
  | .node h => ∀ node, g.node h = .ok node → node.Checked past ∧ (h, node) ∈ part

lemma Source.On.asked (hg : g.Sound) (hp : g.PlainPart part) (hw : past.Within g)
    (hs : source.On past) (hin : ∀ h ∈ source.handles, h ∈ part.map Prod.fst) :
    source.Asked g past part := by
  cases source with
  | relation id => rwa [Source.On, ← hw.schema] at hs
  | node h =>
    intro node hn
    obtain ⟨found, hfound, -⟩ := hs
    have hsame := hw.node_of hfound
    rw [hn] at hsame
    cases hsame
    exact ⟨(hg.of_within hw).checked hfound, hp.mem (hin h (.head _)) hn⟩

/-- **The selection of a select fits the relation whose rows it gives**, against which it was
checked. -/
lemma selection_fits (hg : g.Sound) (hp : g.PlainPart part) (hn : g.node h = .ok (.select sel))
    (hm : (h, .select sel) ∈ part) {r : Relation} (hr : g.Gives (.node h) r) :
    sel.selection.Fits g.schema r := by
  obtain ⟨id, hid, hrelation⟩ := hp.relationOf hg (hr.at_node hn) fun h hh =>
    hp.closed _ hm h (mem_append_left _ hh)
  have hchecked : sel.Checked g := hg.checked hn
  exact hchecked.fits id r hid hrelation

lemma asks_ofBase (base : Base) (hb : base.Opens g) (source : Source) :
    (Reading.ofBase base).Asks g past part source :=
  ⟨hb, fun _ _ => fits_empty _ _, by simp [Reading.ofBase, empty, handles, Lookup.handlesOf],
    by simp [Reading.ofBase]⟩

/-- **What is read asks for what there is**, by induction on how it is read. -/
lemma Graph.Reads.asks (hg : g.Sound) (hp : g.PlainPart part) (hw : past.Within g) {r : Reading}
    (hr : g.Reads s source r) (hs : source.Asked g past part) : r.Asks g past part source := by
  induction hr with
  | relation _ id => exact asks_ofBase (.relation id) hs _
  | stage hn _ => exact asks_ofBase (.stage _) trivial _
  | page hn _ name =>
    obtain ⟨hchecked, hm⟩ := hs _ hn
    exact ⟨trivial, fun _ hr => selection_fits hg hp hn hm hr, fun h hh =>
      ready_of_open hp hm (mem_append_right _ hh) (hchecked.handles h hh), by simp⟩
  | select hn _ _ ih =>
    obtain ⟨hchecked, hm⟩ := hs _ hn
    have ha := ih (hchecked.source.asked hg hp hw fun h hh =>
      hp.closed _ hm h (mem_append_left _ hh))
    exact ⟨ha.opens, fun _ hr => selection_fits hg hp hn hm hr, fun h hh =>
      ready_of_open hp hm (mem_append_right _ hh) (hchecked.handles h hh), ha.conditions⟩
  | filter hn _ _ ih =>
    obtain ⟨hchecked, hm⟩ := hs _ hn
    have ha := ih (hchecked.1.asked hg hp hw fun h hh => hp.closed _ hm h (mem_append_left _ hh))
    refine ⟨ha.opens, fun r hr => ha.fits r (hr.at_node hn), ha.lookups,
      forall_mem_append.mpr ⟨ha.conditions, forall_mem_singleton.mpr ?_⟩⟩
    exact Node.asks_of_keys hm (fun _ h => h) fun k hk =>
      ready_of_open hp hm (mem_append_right _ hk) (hchecked.2 k hk)
  | @common _ _ _ last _ _ hn _ hlast _ ih =>
    obtain ⟨hchecked, hm⟩ := hs _ hn
    have hmem := mem_of_getLast? hlast
    have hlasts : Source.On past (.node last) := hchecked.2 last hmem
    have ha := ih (hlasts.asked hg hp hw fun h hh => by
      rw [mem_singleton.mp hh]
      exact hp.closed _ hm last hmem)
    exact ⟨ha.opens, fun r hr => ha.fits r (hr.at_node hn last hlast), ha.lookups, ha.conditions⟩
  | values hn _ => cases hp.plain _ (hs _ hn).2

variable (hg : g.Sound) (he : earlier.Safe g past part) (hp : g.PlainPart part)
  (hw : (past.push (.select sel)).Within g) (hm : (past.nextHandle, .select sel) ∈ part)

include hg he hp hw hm

/-- **A page as a stage.** -/
lemma stagePage_safe : Safe g part (stagePage g.schema earlier past.nextHandle sel) s := by
  have hchecked : sel.Checked past := hg.nodes past _ hw
  have hin : ∀ h ∈ sel.source.handles, h ∈ part.map Prod.fst :=
    fun h hh => hp.closed _ hm h (mem_append_left _ hh)
  have hbefore : past.Within g := (Graph.within_push past _).trans hw
  refine .get_bind ?_
  cases s.pages.lookup past.nextHandle with
  | some name => exact .pure _
  | none =>
    refine .bind ((readSource_meets (he.readRules hg hw) true sel.source).and
      (Graph.readSource_reads he.reads true sel.source))
      (readSource_safe he true hchecked.source hin) fun reading s1 hx1 hpost => ?_
    obtain ⟨hr, hreads⟩ := hpost
    have ha := hreads.asks hg hp hbefore (hchecked.source.asked hg hp hbefore hin)
    have hordering : ∀ relation, g.Gives sel.source relation → ∀ key ∈ sel.ordering, True :=
      fun _ _ _ _ => trivial
    have hpage := hr.page hordering sel.limit sel.offset
    refine (scanReading_safe hg.schema he hpage ⟨ha.opens, fun _ _ => fits_empty _ _,
      by simp [empty, handles, Lookup.handlesOf],
      ha.conditions⟩ []).bind_total fun scan => ?_
    have hfresh : Total freshStage := fun _ => ⟨_, rfl⟩
    refine hfresh.bind fun name => ?_
    have hinherit : Total (inheritWritten scan.stage name) := by
      intro s2
      cases scan.stage <;> exact ⟨_, rfl⟩
    exact hinherit.bind fun _ _ => ⟨_, rfl⟩

lemma readSelect_safe (enclosed : Bool) :
    Safe g part (readSelect g.schema earlier enclosed past.nextHandle sel) s := by
  have hchecked : sel.Checked past := hg.nodes past _ hw
  rw [readSelect]
  split
  · exact (stagePage_safe hg he hp hw hm).bind_pure
  · exact (readSource_safe he true hchecked.source fun h hh =>
      hp.closed _ hm h (mem_append_left _ hh)).bind_pure

end Selects

section Nodes

variable (hg : g.Sound) (he : earlier.Safe g past part) (hp : g.PlainPart part)
  (hw : (past.push node).Within g) (hm : (past.nextHandle, node) ∈ part)

include hg he hp hw hm

/-- **The reading of a node that has no stage.** -/
lemma readNode_safe (enclosed : Bool) (hkey : node.takesKey = true → s.parents ≠ []) :
    Safe g part (readNode past earlier enclosed past.nextHandle node) s := by
  have hchecked : node.Checked past := hg.nodes past node hw
  have hpast : past.schema = g.schema := hw.schema.symm
  cases node with
  | select sel =>
    rw [readNode, hpast]
    exact readSelect_safe hg he hp hw hm enclosed
  | insert _ _ _ | update _ _ _ | delete _ _ =>
    refine .bind ((stageWrite_marks hg.schema (permits_all g) he.marks hw.node_eq hpast).and
      (stageWrite_some rfl)) (stageWrite_safe hg he hp hw hm hkey) ?_
    rintro name s1 - ⟨-, hname⟩
    cases name with
    | none => exact (hname rfl).elim
    | some name => exact .pure _
  | filter source condition =>
    exact (readSource_safe he true hchecked.1 fun h hh =>
      hp.closed _ hm h (mem_append_left _ hh)).bind_pure
  | common queries =>
    obtain ⟨hne, hopen⟩ := hchecked
    have hready : ∀ h ∈ queries, past.Ready part h := fun h hh =>
      ready_of_open hp hm hh (hopen h hh)
    rw [readNode]
    cases hlast : queries.getLast? with
    | none => exact (hne (getLast?_eq_none_iff.mp hlast)).elim
    | some last =>
      have hfirst : ∀ h s1, Keeps (marking g fun _ _ => True)
          (discard (earlier.stage h)) s1 fun _ _ => True :=
        fun h s1 => ((he.marks h).stage s1).bind fun _ _ _ _ => .of_pure trivial
      refine .bind (.forM (fun _ _ _ _ h => h) fun h _ s1 _ => hfirst h s1)
        (.forM (fun h _ s1 _ => hfirst h s1) fun h hh s1 _ => ?_) fun _ s1 _ _ => ?_
      · have hr := hready h (dropLast_subset _ hh)
        exact (he.stage h s1 hr.1.has hr.2 (.inl hr.1)).bind_pure
      · exact he.read enclosed last s1 (hready last (mem_of_getLast? hlast))
  | values columns rows => exact .pure _

lemma readAt_safe (enclosed : Bool) (hkey : node.takesKey = true → s.parents ≠ []) :
    Safe g part (readAt past earlier enclosed past.nextHandle node) s := by
  refine .get_bind ?_
  cases s.staged.lookup past.nextHandle with
  | some name => exact .pure _
  | none => exact readNode_safe hg he hp hw hm enclosed hkey

lemma readAt_asks (enclosed : Bool) :
    Ensures (readAt past earlier enclosed past.nextHandle node) s fun r _ =>
      r.Asks g past part (.node past.nextHandle) := by
  refine (Graph.readAt_reads he.reads hw.node_eq enclosed).mono fun r _ hr =>
    hr.asks hg hp ((Graph.within_push past node).trans hw) fun found hfound => ?_
  rw [hw.node_eq] at hfound
  cases hfound
  exact ⟨hg.nodes past node hw, hm⟩

lemma readAt_bind_safe (hkey : node.takesKey = true → s.parents ≠ []) {α : Type}
    {f : Reading → Plan α} (hf : ∀ r s1, r.Marked g (fun _ _ => True) s1 (.node past.nextHandle) →
      r.Asks g past part (.node past.nextHandle) → Safe g part (f r) s1) :
    Safe g part (readAt past earlier false past.nextHandle node >>= f) s := by
  exact .bind ((readAt_meets (he.readRules hg hw) false).and (readAt_asks hg he hp hw hm false))
    (readAt_safe hg he hp hw hm false hkey) fun r s1 _ hr => hf r s1 hr.1 hr.2

lemma scanAt_safe (hkey : node.takesKey = true → s.parents ≠ []) (scope : List String) :
    Safe g part (scanAt past earlier past.nextHandle node scope) s := by
  have hpast : past.schema = g.schema := hw.schema.symm
  rw [scanAt, hpast]
  exact readAt_bind_safe hg he hp hw hm hkey fun r s1 hr ha =>
    scanReading_safe hg.schema he hr ha scope

/-- **The sub-select of a write gives its primary key.** -/
lemma subselectAt_safe (hkey : node.takesKey = true → s.parents ≠ []) :
    Safe g part (subselectAt past earlier past.nextHandle node) s := by
  have hpast : past.schema = g.schema := hw.schema.symm
  rw [subselectAt, hpast]
  refine readAt_bind_safe hg he hp hw hm hkey fun reading s1 hr ha => ?_
  have hscan : ∀ r : Reading, r.Marked g (fun _ _ => True) s1 (.node past.nextHandle) →
      r.Asks g past part (.node past.nextHandle) → Safe g part (do
        let scan ← scanReading g.schema earlier r []
        return Statement.select scan.select) s1 :=
    fun r hr ha => (scanReading_safe hg.schema he hr ha []).bind_pure
  split
  · rename_i hmutation
    obtain ⟨id, htarget⟩ : ∃ id, node.target? = some id := by
      cases node <;> simp_all [Node.isMutation, Node.target?]
    have hrelation := Graph.relationOf_write (Graph.Within.refl (past.push node)).node_eq htarget
    obtain ⟨r, hid⟩ : ∃ r, g.schema.relation id = .ok r := by
      have hchecked : node.Checked g := hg.checked hw.node_eq
      cases node <;> cases htarget <;> exact hchecked.1
    obtain ⟨c, hc⟩ := hg.schema.key r (Schema.mem_of_relation hid)
    refine .lift_bind hrelation (.lift_bind hid (hscan _ ?_ ?_))
    · exact ⟨hr.valid, hr.gives, hr.ordering, fun r _ => links_of_nil (by
        simp [ofFields, addField, empty, hasKey]), hr.exprs⟩
    · refine ⟨ha.opens, fun r' hr' => ?_, by simp [handles_ofFields], ha.conditions⟩
      have hsame : r' = r := hr'.of_write hw.node_eq htarget hid
      rw [hsame]
      exact fits_ofFields hc
  · exact hscan reading hr ha

/-! ### Stages -/

/-- **A node that has no stage is staged.** -/
lemma stageNode_safe (hkey : node.takesKey = true → s.parents ≠ []) :
    Safe g part (stageNode past earlier past.nextHandle node) s := by
  have hchecked : node.Checked past := hg.nodes past node hw
  have hpast : past.schema = g.schema := hw.schema.symm
  cases node with
  | common queries =>
    obtain ⟨hne, hopen⟩ := hchecked
    have hstaged : Keeps (marking g fun _ _ => True) (queries.mapM earlier.stage) s fun names s' =>
        Forall₂ (fun h name => s'.StagedFor g h name) queries names :=
      .mapM (fun _ _ _ _ => (he.readRules hg hw).staged_mono) fun h _ s1 _ => (he.marks h).stage s1
    refine .bind hstaged (.mapM (fun h _ s1 _ => ((he.marks h).stage s1).forget)
      fun h hh s1 _ => ?_) fun names s1 hx1 hnames => ?_
    · exact he.stage h s1 (hopen h hh).has (hp.closed _ hm h hh) (.inl (hopen h hh))
    · cases hlast : names.getLast? with
      | none =>
        have := hnames.length_eq
        simp_all
      | some last => exact Total.safe fun _ => ⟨_, rfl⟩
  | _ =>
    refine .bind (stageWrite_marks hg.schema (permits_all g) he.marks hw.node_eq hpast)
      (stageWrite_safe hg he hp hw hm hkey) fun name s1 hx1 _ => ?_
    cases name with
    | some name => exact .pure _
    | none =>
      refine (scanAt_safe hg he hp hw hm (fun h => ?_) []).bind_total fun _ _ => ⟨_, rfl⟩
      rw [hx1.parents]
      exact hkey h

lemma stageAt_safe (hkey : node.takesKey = true → s.parents ≠ []) :
    Safe g part (stageAt past earlier past.nextHandle node) s := by
  refine .get_bind ?_
  cases s.staged.lookup past.nextHandle with
  | some name => exact .pure _
  | none => exact stageNode_safe hg he hp hw hm hkey

end Nodes

/-! ### All nodes -/

section Planner

lemma Graph.Open.of_push (ho : (past.push node).Open h) (hne : h ≠ past.nextHandle) :
    past.Open h := by
  obtain ⟨found, hfound, hkey⟩ := ho
  obtain ⟨found', hfound'⟩ := (Graph.Has.of_push ⟨found, hfound⟩).resolve_left hne
  have hsame := (Graph.within_push past node).node_of hfound'
  rw [hfound] at hsame
  cases hsame
  exact ⟨found, hfound', hkey⟩

lemma Graph.Ready.of_push (hr : (past.push node).Ready part h) (hne : h ≠ past.nextHandle) :
    past.Ready part h :=
  ⟨hr.1.of_push hne, hr.2⟩

/-- The new node does not take the key of a row around it if it stands on its own. -/
lemma Graph.Open.takesKey (ho : (past.push node).Open past.nextHandle) : node.takesKey = false := by
  obtain ⟨found, hfound, hkey⟩ := ho
  rw [(Graph.Within.refl (past.push node)).node_eq] at hfound
  cases hfound
  exact hkey

/-- **One more node** is planned with those before it. -/
lemma Earlier.Safe.push (hg : g.Sound) (hp : g.PlainPart part) (he : earlier.Safe g past part)
    (hw : (past.push node).Within g) :
    (earlier.push past node).Safe g (past.push node) part := by
  have hmem : past.nextHandle ∈ part.map Prod.fst → (past.nextHandle, node) ∈ part :=
    fun hin => hp.mem hin hw.node_eq
  have hfree : ∀ {s : PlanState}, (past.push node).Open past.nextHandle →
      node.takesKey = true → s.parents ≠ [] := by
    intro s ho hkey
    rw [ho.takesKey] at hkey
    cases hkey
  have hmarks : (earlier.push past node).Meets (markedNodes g fun _ _ => True) :=
    .push (fun k _ => he.marks k)
      (marks_meetsAt hg.schema (permits_all g) he.marks hw.node_eq hw.schema.symm)
  -- the node itself, or one before it
  refine ⟨hmarks, fun h s hhas hin hparents => ?_, fun enclosed h s hr => ?_,
    fun enclosed h s => ?_, fun h scope s hr => ?_, fun h s hr => ?_⟩ <;>
    simp only [Earlier.push] <;> split <;> rename_i hown
  · subst hown
    refine stageAt_safe hg he hp hw (hmem hin) fun hkey => ?_
    tauto
  · exact he.stage h s (hhas.of_push.resolve_left hown) hin
      (hparents.imp_left fun ho => ho.of_push hown)
  · subst hown
    exact readAt_safe hg he hp hw (hmem hr.2) enclosed (hfree hr.1)
  · exact he.read enclosed h s (hr.of_push hown)
  · subst hown
    exact Graph.readAt_reads he.reads hw.node_eq enclosed
  · exact he.reads enclosed h s
  · subst hown
    exact scanAt_safe hg he hp hw (hmem hr.2) (hfree hr.1) scope
  · exact he.scan h scope s (hr.of_push hown)
  · subst hown
    exact subselectAt_safe hg he hp hw (hmem hr.2) (hfree hr.1)
  · exact he.subselect h s (hr.of_push hown)

lemma Earlier.Safe.none (g : Graph) (part : List (Handle × Node)) (id : Nat) (schema : Schema) :
    Earlier.none.Safe g (.empty id schema) part := by
  have hnot : ∀ h, ¬ (Graph.empty id schema).Has h := by
    rintro h ⟨node, hn⟩
    cases Graph.mem_of_node hn
  exact ⟨.none _, fun h _ hh => (hnot h hh).elim, fun _ h _ hr => (hnot h hr.1.has).elim,
    fun _ _ _ => .of_throw, fun h _ _ hr => (hnot h hr.1.has).elim,
    fun h _ hr => (hnot h hr.1.has).elim⟩

/-- **All nodes of a graph**, by induction on the list of nodes. -/
lemma planner_safe (hg : g.Sound) (hp : g.PlainPart part) : g.planner.Safe g g part := by
  have hall : ∀ nodes newer, g.nodes = newer ++ nodes →
      (Earlier.ofNodes g.id g.schema nodes).Safe g ⟨g.id, g.schema, nodes⟩ part := by
    intro nodes
    induction nodes with
    | nil => exact fun _ _ => .none g part g.id g.schema
    | cons node rest ih =>
      intro newer hnodes
      refine Earlier.Safe.push hg hp (ih (newer ++ [node]) (by simpa using hnodes)) ?_
      exact ⟨rfl, rfl, newer, hnodes⟩
  exact hall g.nodes [] rfl

end Planner

end StagedSql
