import StagedSql.Plan.Stage
import StagedSql.Proofs.Graph.Builds
import StagedSql.Proofs.Plan.Runs

/-!
Laws for conditions and for the shapes of selections.

A lookup reads the rows that it leads to and joins them to the outer row. A field that leads back to
other rows is a lookup of all their columns.
-/

namespace StagedSql

open Plan Condition

variable {schema : Schema} {earlier : Earlier} {r : Relation} {q : String} {scope : List String}

mutual

/-- The expressions that a condition takes as they are. -/
def Condition.exprs : Condition → List Expr
  | .lookup _ (.expr e) => [e]
  | .lookup _ _ => []
  | .all items => exprsEach items
  | .any items => exprsEach items
  | .not c => c.exprs

def Condition.exprsEach : List Condition → List Expr
  | [] => []
  | c :: rest => c.exprs ++ exprsEach rest

end

mutual

lemma Condition.exprs_of_noExpr : ∀ {c : Condition}, c.NoExpr → c.exprs = []
  | .lookup _ operand, hc => by
    cases operand with
    | expr e => exact (show False by rwa [Condition.NoExpr] at hc).elim
    | value v => rw [exprs]; rintro e ⟨⟩
    | query h => rw [exprs]; rintro e ⟨⟩
  | .all items, hc => by
    rw [exprs, exprsEach_of_noExpr hc]
  | .any items, hc => by
    rw [exprs, exprsEach_of_noExpr hc]
  | .not c, hc => by
    rw [Condition.NoExpr] at hc
    rw [exprs, exprs_of_noExpr hc]

lemma Condition.exprsEach_of_noExpr : ∀ {items : List Condition},
    Condition.NoExprEach items → exprsEach items = []
  | [], _ => by rw [exprsEach]
  | c :: rest, hc => by
    rw [exprsEach, exprs_of_noExpr hc.1, exprsEach_of_noExpr hc.2, List.append_nil]

end

/-- **A law with what it says of conditions**: of the expressions that are made of them, from a
state of which something is known to another one. -/
structure ConditionLaw where
  law : Law
  Known : PlanState → Prop
  Taken : Expr → Prop
  Says : Condition → PlanState → Expr → PlanState → Prop
  SaysEach : List Condition → PlanState → List Expr → PlanState → Prop

namespace ConditionLaw

variable {l : ConditionLaw}

/-- **What has to be shown** of a lookup, of conditions one after the other, and of what is made of
them. -/
structure Rules (l : ConditionLaw) (schema : Schema) (earlier : Earlier) (r : Relation) (q : String)
    (scope : List String) : Prop where
  mono : ∀ {s s'}, l.law.grows s s' → l.Known s → l.Known s'
  lookup : ∀ {key operand s}, l.Known s → (∀ x, operand = .expr x → l.Taken x) →
    Keeps l.law (lookupToSql earlier.context schema key operand r q scope) s
      (l.Says (.lookup key operand) s)
  nil : ∀ s, l.SaysEach [] s [] s
  cons : ∀ {c rest s s1 s' e es}, l.law.grows s s1 → l.law.grows s1 s' → l.Says c s e s1 →
    l.SaysEach rest s1 es s' → l.SaysEach (c :: rest) s (e :: es) s'
  all : ∀ {items s es s'}, l.SaysEach items s es s' →
    l.Says (.all items) s ((Expr.conjunction? es).getD (.bool true)) s'
  any : ∀ {items s es s'}, l.SaysEach items s es s' →
    l.Says (.any items) s ((Expr.disjunction? es).getD (.bool false)) s'
  not : ∀ {c s e s'}, l.Says c s e s' → l.Says (.not c) s e.negate s'

namespace Rules

mutual

/-- **A condition**, by recursion on it. -/
theorem toSqlIn (rules : l.Rules schema earlier r q scope) {s : PlanState} (hk : l.Known s) :
    ∀ c : Condition, (∀ x ∈ c.exprs, l.Taken x) →
      Keeps l.law (toSqlIn earlier.context schema r q scope c) s (l.Says c s)
  | .lookup key operand, hc => by
    refine rules.lookup hk ?_
    rintro x rfl
    exact hc x (by simp [exprs])
  | .all items, hc => (toSqlEach rules hk items hc).bind fun _ _ _ h => .of_pure (rules.all h)
  | .any items, hc => (toSqlEach rules hk items hc).bind fun _ _ _ h => .of_pure (rules.any h)
  | .not c, hc => (toSqlIn rules hk c hc).bind fun _ _ _ h => .of_pure (rules.not h)

theorem toSqlEach (rules : l.Rules schema earlier r q scope) {s : PlanState} (hk : l.Known s) :
    ∀ items : List Condition, (∀ x ∈ exprsEach items, l.Taken x) →
      Keeps l.law (toSqlEach earlier.context schema r q scope items) s (l.SaysEach items s)
  | [], _ => .of_pure (rules.nil s)
  | c :: rest, hc => by
    rw [exprsEach, List.forall_mem_append] at hc
    refine (toSqlIn rules hk c hc.1).bind fun e s1 hg1 he => ?_
    refine (toSqlEach rules (rules.mono hg1 hk) rest hc.2).bind fun es s2 hg2 hes => ?_
    exact .of_pure (rules.cons hg1 hg2 he hes)

end

lemma toSqlIn_of_noExpr (rules : l.Rules schema earlier r q scope) {c : Condition} {s : PlanState}
    (hk : l.Known s) (hc : c.NoExpr) :
    Keeps l.law (Condition.toSqlIn earlier.context schema r q scope c) s (l.Says c s) :=
  rules.toSqlIn hk c (by simp [exprs_of_noExpr hc])

end Rules

end ConditionLaw

lemma Operand.noExpr_of {operand : Operand} (h : ∀ x, operand = .expr x → False) :
    operand.NoExpr := by
  cases operand with
  | expr x => exact (h x rfl).elim
  | _ => trivial

/-! ### What is said of expressions alone -/

/-- **What has to be shown of expressions** to hold of all that are made of conditions. Of the
expressions that conditions take as they are, and of the nodes that they compare with, something may
be known. -/
structure Earlier.Makes (earlier : Earlier) (Taken : Expr → Prop) (Refers : Handle → Prop)
    (P : Expr → Prop) : Prop where
  value : ∀ {key q field op v e}, compareValue key (.of q field) op v = .ok e → P e
  expr : ∀ {key q field op x e}, Taken x → compareExpr key (.of q field) op x = .ok e → P e
  query : ∀ {h key q field op s}, Refers h → Ensures (earlier.subselect h) s fun query _ =>
    ∀ {e}, compareQuery key (.of q field) op query = .ok e → P e
  link : ∀ {c owner q related name inner}, P inner →
    P (existsRow (tableItem related.name name) (linkTo c owner q related name) inner)
  all : ∀ {es}, (∀ e ∈ es, P e) → P ((Expr.conjunction? es).getD (.bool true))
  any : ∀ {es}, (∀ e ∈ es, P e) → P ((Expr.disjunction? es).getD (.bool false))
  not : ∀ {e}, P e → P e.negate

namespace Earlier.Makes

variable {Taken P : Expr → Prop} {Refers : Handle → Prop} {key : String} {path : LookupKey}
  {operand : Operand} {s : PlanState}

lemma leaf (hm : earlier.Makes Taken Refers P) (hx : ∀ x, operand = .expr x → Taken x)
    (hh : ∀ h ∈ operandHandles operand, Refers h) (r : Relation) (q : String) :
    Ensures (leaf earlier.context key path operand r q) s fun e _ => P e := by
  rw [Condition.leaf]
  split
  · dsimp only
    split
    · exact .throw_bind
    · cases operand with
      | expr x => exact .of_lift fun e h => hm.expr (hx x rfl) h
      | value v => exact .of_lift fun e h => hm.value h
      | query h =>
        exact (hm.query (hh h (List.mem_singleton.mpr rfl))).bind fun query _ hq =>
          .of_lift fun e h => hq h
  · exact .of_throw

lemma follow (hm : earlier.Makes Taken Refers P) (hx : ∀ x, operand = .expr x → Taken x)
    (hh : ∀ h ∈ operandHandles operand, Refers h) (links : List String) :
    ∀ {s : PlanState} (owner : Relation) (q : String) (scope : List String),
      Ensures (follow earlier.context schema key path operand links owner q scope) s
        fun e _ => P e := by
  induction links with
  | nil => exact fun owner q _ => hm.leaf hx hh owner q
  | cons segment rest ih =>
    intro s owner q scope
    refine .bind_any fun found _ => .bind_any fun name _ => ?_
    exact (ih found.2 name (scope ++ [name])).bind fun inner _ h => .of_pure (hm.link h)

mutual

/-- **A condition**, by recursion on it. -/
theorem toSqlIn (hm : earlier.Makes Taken Refers P) {s : PlanState} : ∀ {c : Condition},
    (∀ x ∈ c.exprs, Taken x) → (∀ h ∈ c.handles, Refers h) →
      Ensures (toSqlIn earlier.context schema r q scope c) s fun e _ => P e
  | .lookup key operand, hx, hh => by
    have hoperand : ∀ x, operand = .expr x → Taken x := by
      rintro x rfl
      exact hx x (by simp [exprs])
    exact .bind_any fun path _ => hm.follow hoperand hh path.joins r q scope
  | .all items, hx, hh => (toSqlEach hm hx hh).bind fun es _ h => .of_pure (hm.all h)
  | .any items, hx, hh => (toSqlEach hm hx hh).bind fun es _ h => .of_pure (hm.any h)
  | .not c, hx, hh => by
    rw [exprs] at hx
    exact (toSqlIn hm hx hh).bind fun e _ h => .of_pure (hm.not h)

theorem toSqlEach (hm : earlier.Makes Taken Refers P) {s : PlanState} : ∀ {items : List Condition},
    (∀ x ∈ exprsEach items, Taken x) → (∀ h ∈ handlesOf items, Refers h) →
      Ensures (toSqlEach earlier.context schema r q scope items) s fun es _ =>
        ∀ e ∈ es, P e
  | [], _, _ => .of_pure (by simp)
  | c :: rest, hx, hh => by
    rw [exprsEach, List.forall_mem_append] at hx
    rw [handlesOf, List.forall_mem_append] at hh
    refine (toSqlIn hm hx.1 hh.1).bind fun e _ he => ?_
    refine (toSqlEach hm hx.2 hh.2).bind fun es _ hes => ?_
    exact .of_pure (List.forall_mem_cons.mpr ⟨he, hes⟩)

end

lemma toSqlIn_of_noExpr (hm : earlier.Makes Taken (fun _ => True) P) {c : Condition}
    (hc : c.NoExpr) :
    Ensures (Condition.toSqlIn earlier.context schema r q scope c) s fun e _ => P e :=
  hm.toSqlIn (by simp [exprs_of_noExpr hc]) fun _ _ => trivial

end Earlier.Makes

variable {outer : Outer}

/-- The rows of a base in the shape of a selection. -/
def Reading.selecting (base : Base) (selection : Selection) : Reading :=
  { Reading.ofBase base with selection := selection }

section Equations

variable {name lateral : String} {c : Column} {target : RelationId}

lemma scanReading_selecting (base : Base) (selection : Selection) (scope : List String) :
    scanReading schema earlier (.selecting base selection) scope = (do
      let o ← openBase schema base scope
      o.needAllIfEmpty selection
      let sh ← shape schema earlier (o.outer scope) selection
      return o.scan sh.joins sh.items) := by
  rfl

lemma written?_run (stage : Option String) (name : String) (s : PlanState) :
    written? stage name s = .ok (stage.bind fun t => s.written.lookup (t, name), s) := by
  cases stage <;> rfl

/-- **Related rows** are read from their relation, or from the stages that were noted for them. -/
lemma Plan.Keeps.relatedBase {law : Law} {s : PlanState} {post : Base → PlanState → Prop}
    (hrelation : post (.relation target) s)
    (hunion : law.holds s → ∀ stage members, s.written.lookup (stage, name) = some members →
      post (.union members target) s) : Keeps law (relatedBase outer name target) s post := by
  refine .of_holds fun hs => .run_bind (written?_run outer.stage name s) id (law.refl s) ?_
  cases hmembers : outer.stage.bind fun t => s.written.lookup (t, name) with
  | none => exact .of_pure hrelation
  | some members =>
    obtain ⟨stage, -, hlookup⟩ := Option.bind_eq_some_iff.mp hmembers
    exact .of_pure (hunion hs stage members hlookup)

lemma shapeLookup_nested (selection : Selection) :
    shapeLookup schema earlier outer name c target lateral (.nested selection) = (do
      let base ← relatedBase outer name target
      let inner ← scanReading schema earlier (.selecting base selection) outer.scope
      joinRows outer c name lateral inner) := by
  simp only [shapeLookup, scanReading_selecting, bind_assoc, pure_bind]

/-- The working table of a walk is of no stage, so that nothing is noted of it. -/
lemma shapeLookup_recursive (selection : Selection) (maxDepth : Option UInt32) :
    shapeLookup schema earlier outer name c target lateral (.recursive selection maxDepth) = (do
      let w ← beginWalk schema outer c target maxDepth
      let walked ← scanReading schema earlier (.selecting (.walk w.table target) selection)
        (outer.scope ++ [w.table])
      w.join name lateral walked) := by
  have hneed : ∀ (table : String) (r : Relation),
      Opened.needAllIfEmpty ⟨.table table none, table, r, none⟩ selection = pure () := by
    intro table r
    unfold Opened.needAllIfEmpty
    cases selection.isEmpty <;> rfl
  simp only [shapeLookup, scanReading_selecting, openBase, bind_assoc, pure_bind, hneed]

lemma scanReading_walk {s : PlanState} (table : String) (selection : Selection)
    (scope : List String) :
    Ensures (scanReading schema earlier (.selecting (.walk table target) selection) scope) s
      fun scan _ => schema.relation target = .ok scan.relation ∧ scan.qualifier = table ∧
        scan.stage = none ∧ scan.select.source = some (.table table none) := by
  rw [scanReading_selecting, openBase, bind_assoc]
  refine .lift_bind fun r hr => ?_
  rw [pure_bind]
  exact .bind_any fun _ _ => .bind_any fun _ _ => .of_pure ⟨hr, rfl, rfl, rfl⟩

lemma shapeField_eq (earlier : Earlier) (name : String) :
    shapeField schema outer name = (do
      let c ← outer.relation.column name
      if c.isReverse then
        let (c, target) ← lookupTarget schema outer name
        let lateral ← freshLateral
        return .ofJoin (← shapeLookup schema earlier outer name c target lateral (.nested .empty))
      else
        need outer.stage name
        return .ofItem ⟨.of outer.qualifier name, none⟩) := by
  simp only [shapeField, shapeLookup_nested, scanAll, scanReading_selecting, Selection.empty, shape,
    shapeFields, shapeLookups, bind_assoc, pure_bind]
  rfl

lemma joinRows_label {s : PlanState} (inner : Scan) :
    Ensures (joinRows outer c name lateral inner) s fun j _ => j.2.outputName? = some name := by
  rw [joinRows]
  split
  · exact .bind_any fun _ _ => .bind_any fun _ _ => .bind_any fun _ _ => .of_pure rfl
  · exact .bind_any fun _ _ => .bind_any fun _ _ => .of_pure rfl

/-- A lookup goes by the name of its column. -/
lemma shapeLookup_label {s : PlanState} (lookup : Lookup) :
    Ensures (shapeLookup schema earlier outer name c target lateral lookup) s fun j _ =>
      j.2.outputName? = some name := by
  cases lookup with
  | nested selection =>
    rw [shapeLookup_nested]
    exact .bind_any fun _ _ => .bind_any fun inner _ => joinRows_label inner
  | query h => exact .bind_any fun inner _ => joinRows_label inner
  | recursive selection maxDepth =>
    rw [shapeLookup_recursive]
    exact .bind_any fun _ _ => .bind_any fun _ _ => .bind_any fun _ _ => .of_pure rfl

end Equations

/-- The names that a selection lists, in the order of the items that show them. -/
def Selection.listed (s : Selection) : List String := s.fields ++ s.lookups.map (·.1)

lemma Selection.isEmpty_iff {s : Selection} : s.isEmpty = true ↔ s.listed = [] := by
  simp [Selection.isEmpty, Selection.listed]

/-- The items of a SELECT list go by the given names. -/
def ListsNames (items : List SelectItem) (names : List String) : Prop :=
  items.map SelectItem.outputName? = names.map some

lemma ListsNames.append {a b : List SelectItem} {names names' : List String}
    (ha : ListsNames a names) (hb : ListsNames b names') :
    ListsNames (a ++ b) (names ++ names') := by
  rw [ListsNames, List.map_append, ha, hb, List.map_append]

section Listed

variable {select : Select} {names : List String} (h : ListsNames select.projection names)

include h

lemma ListsNames.projection_eq_nil : select.projection = [] ↔ names = [] := by
  rw [← List.map_eq_nil_iff, h, List.map_eq_nil_iff]

/-- An item that has a name does not stand for all columns. -/
lemma ListsNames.isStar_iff : select.isStar = true ↔ names = [] := by
  rw [← h.projection_eq_nil, Select.isStar, Bool.or_eq_true, List.isEmpty_iff, or_iff_left_iff_imp,
    List.any_eq_true]
  rintro ⟨item, hmem, hstar⟩
  have hlisted : item.outputName? ∈ names.map some := h ▸ List.mem_map_of_mem hmem
  obtain ⟨name, -, hname⟩ := List.mem_map.mp hlisted
  obtain ⟨e, label⟩ := item
  cases label <;> cases e <;> simp [SelectItem.isStar, SelectItem.outputName?] at hstar hname

lemma ListsNames.outputNames : select.outputNames = distinct names := by
  have hnames := congrArg (List.filterMap id) h
  rw [List.filterMap_map, List.filterMap_map] at hnames
  simpa [Select.outputNames] using congrArg distinct hnames

end Listed

/-! ### What holds of all shapes -/

/-- The selection of the rows that a lookup leads to, unless a query gives them. -/
def Lookup.selection? : Lookup → Option Selection
  | .nested selection | .recursive selection _ => some selection
  | .query _ => none

/-- **What is to be known of the shapes of selections**: of outer rows in a state, of what is asked
of the rows of a relation, and of a shape by the states before and after. -/
structure ShapeLaw where
  law : Law
  Out : Outer → PlanState → Prop
  Asks : Relation → Selection → Prop
  Leads : Relation → String → Lookup → Prop
  Shaped : Outer → PlanState → PlanState → Shape → Prop

namespace ShapeLaw

variable {l : ShapeLaw}

/-- **Every shape of a selection is as stated**, and its items go by the names of the selection. -/
def Shapes (l : ShapeLaw) (schema : Schema) (earlier : Earlier) (selection : Selection) : Prop :=
  ∀ {outer : Outer} {s : PlanState}, l.Out outer s → l.Asks outer.relation selection →
    Keeps l.law (shape schema earlier outer selection) s fun sh s' =>
      l.Shaped outer s s' sh ∧ ListsNames sh.items selection.listed

/-- **What has to be shown**: of shapes one after the other, of stored columns, and of lookups whose
own selections have such shapes. -/
structure Rules (l : ShapeLaw) (schema : Schema) (earlier : Earlier) : Prop where
  mono : ∀ {outer s s'}, l.Out outer s → l.law.grows s s' → l.Out outer s'
  empty : ∀ outer s, l.Shaped outer s s .empty
  append : ∀ {outer s s' s'' a b}, l.law.grows s s' → l.law.grows s' s'' →
    l.Shaped outer s s' a → l.Shaped outer s' s'' b → l.Shaped outer s s'' (a.append b)
  leads : ∀ {r fields lookups}, l.Asks r ⟨fields, lookups⟩ → ∀ e ∈ lookups, l.Leads r e.1 e.2
  leads_empty : ∀ r name, l.Leads r name (.nested .empty)
  stored : ∀ {outer s name c}, l.Out outer s → outer.relation.column? name = some c →
    c.isReverse = false → Keeps l.law (need outer.stage name) s fun _ s' =>
      l.Shaped outer s s' (.ofItem ⟨.of outer.qualifier name, none⟩)
  lookup : ∀ {outer s name c target lookup}, l.Out outer s → l.Leads outer.relation name lookup →
    lookupTarget schema outer name = .ok (c, target) →
    (∀ selection, lookup.selection? = some selection → l.Shapes schema earlier selection) →
      Keeps l.law (do
          let lateral ← freshLateral
          shapeLookup schema earlier outer name c target lateral lookup) s
        fun j s' => l.Shaped outer s s' (.ofJoin j)

namespace Rules

variable (rules : l.Rules schema earlier) {s : PlanState}

include rules

lemma shape_empty : l.Shapes schema earlier .empty := by
  intro outer s _ _
  exact .of_pure ⟨rules.empty outer s, rfl⟩

lemma shapeField (ho : l.Out outer s) (name : String) :
    Keeps l.law (shapeField schema outer name) s fun sh s' =>
      l.Shaped outer s s' sh ∧ ListsNames sh.items [name] := by
  rw [shapeField_eq earlier]
  refine .lift_bind fun c hc => ?_
  split
  · refine .lift_bind fun link htarget => ?_
    obtain ⟨c', target⟩ := link
    have hjoin := rules.lookup ho (rules.leads_empty _ name) htarget (by
      rintro _ ⟨⟩
      exact rules.shape_empty)
    dsimp only
    rw [← bind_assoc]
    refine (hjoin.and (.bind_any fun _ _ => shapeLookup_label _)).bind fun j s' _ hj => ?_
    exact .of_pure ⟨hj.1, congrArg ([·]) hj.2⟩
  · rename_i hrev
    refine (rules.stored ho (Relation.column_eq_ok.mp hc) (by simpa using hrev)).bind
      fun _ _ _ hitem => .of_pure ⟨hitem, rfl⟩

lemma shapeFields (ho : l.Out outer s) (names : List String) :
    Keeps l.law (shapeFields schema outer names) s fun sh s' =>
      l.Shaped outer s s' sh ∧ ListsNames sh.items names := by
  induction names generalizing s with
  | nil => exact .of_pure ⟨rules.empty outer s, rfl⟩
  | cons name rest ih =>
    refine (rules.shapeField ho name).bind fun first s1 hx1 hfirst => ?_
    refine (ih (rules.mono ho hx1)).bind fun more s2 hx2 hmore => ?_
    exact .of_pure ⟨rules.append hx1 hx2 hfirst.1 hmore.1, hfirst.2.append hmore.2⟩

omit rules

mutual

/-- **A selection**, by recursion on it. -/
theorem shape (rules : l.Rules schema earlier) :
    ∀ selection : Selection, l.Shapes schema earlier selection
  | ⟨fields, lookups⟩, outer, s, ho, hasks => by
    refine (rules.shapeFields ho fields).bind fun first s1 hx1 hfirst => ?_
    refine (shapeLookups rules lookups (rules.mono ho hx1) (rules.leads hasks)).bind
      fun more s2 hx2 hmore => ?_
    exact .of_pure ⟨rules.append hx1 hx2 hfirst.1 hmore.1, hfirst.2.append hmore.2⟩

theorem shapeLookups (rules : l.Rules schema earlier) :
    ∀ (lookups : List (String × Lookup)) {outer : Outer} {s : PlanState}, l.Out outer s →
      (∀ e ∈ lookups, l.Leads outer.relation e.1 e.2) →
      Keeps l.law (StagedSql.shapeLookups schema earlier outer lookups) s fun sh s' =>
        l.Shaped outer s s' sh ∧ ListsNames sh.items (lookups.map (·.1))
  | [], outer, s, _, _ => .of_pure ⟨rules.empty outer s, rfl⟩
  | (name, lookup) :: rest, outer, s, ho, hleads => by
    rw [List.forall_mem_cons] at hleads
    refine .lift_bind fun link htarget => ?_
    obtain ⟨c, target⟩ := link
    have hjoin := rules.lookup ho hleads.1 htarget (shapeLookup rules lookup)
    dsimp only at hjoin ⊢
    rw [← bind_assoc]
    refine (hjoin.and (.bind_any fun _ _ => shapeLookup_label lookup)).bind
      fun j s1 hx1 hj => ?_
    refine (shapeLookups rules rest (rules.mono ho hx1) hleads.2).bind fun more s2 hx2 hmore => ?_
    have hlabel : ListsNames (Shape.ofJoin j).items [name] := congrArg ([·]) hj.2
    exact .of_pure ⟨rules.append hx1 hx2 hj.1 hmore.1, hlabel.append hmore.2⟩

theorem shapeLookup (rules : l.Rules schema earlier) :
    ∀ (lookup : Lookup) (selection : Selection), lookup.selection? = some selection →
      l.Shapes schema earlier selection
  | .nested inner, _, h => by
    cases h
    exact shape rules inner
  | .recursive inner _, _, h => by
    cases h
    exact shape rules inner
  | .query _, _, h => by cases h

end

end Rules

/-- The law that says nothing but that items go by the names of selections. -/
def names : ShapeLaw := ⟨.free, fun _ _ => True, fun _ _ => True, fun _ _ _ => True,
  fun _ _ _ _ => True⟩

lemma names_rules : names.Rules schema earlier :=
  ⟨fun _ _ => trivial, fun _ _ => trivial, fun _ _ _ _ => trivial, fun _ _ _ => trivial,
    fun _ _ => trivial, fun _ _ _ => Ensures.keeps fun _ _ _ => trivial,
    fun _ _ _ _ => Ensures.keeps fun _ _ _ => trivial⟩

end ShapeLaw

/-- **The SELECT of a reading lists the names that are selected**, whatever the state is. -/
lemma scanReading_lists {s : PlanState} (reading : Reading) (scope : List String) :
    Ensures (scanReading schema earlier reading scope) s fun scan _ =>
      ListsNames scan.select.projection reading.selection.listed := by
  refine .bind_any fun o _ => .bind_any fun _ _ => .bind_any fun _ s1 => ?_
  have hshape : Ensures (shape schema earlier (o.outer scope) reading.selection) s1 fun sh _ =>
      ListsNames sh.items reading.selection.listed :=
    (Keeps.ensures (ShapeLaw.names_rules.shape reading.selection trivial trivial)).mono
      fun _ _ h => h.2
  exact hshape.bind fun _ _ hsh => .bind_any fun _ _ => .of_pure hsh

end StagedSql
