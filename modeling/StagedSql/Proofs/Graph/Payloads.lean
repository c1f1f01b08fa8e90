import StagedSql.Proofs.Graph.CheckedNodes

/-!
How payloads are built.

The payload of changes is built by recursion on them. On the way nodes are added: selects of primary
keys, and inserts of the rows that are written beside the one at hand. An invariant of graphs that
these nodes keep is kept, even if building fails (`payloadOf_keeps`).
-/

namespace StagedSql

open List

mutual

/-- The queries that changes refer to. -/
def Changes.handles : Changes → List Handle
  | ⟨entries, source⟩ => source.toList ++ Change.handlesOf entries

def Change.handles : Change → List Handle
  | .value _ => []
  | .nested changes => changes.handles
  | .query h => [h]
  | .many rows => Changes.handlesOf rows

def Change.handlesOf : List (String × Change) → List Handle
  | [] => []
  | (_, change) :: rest => change.handles ++ Change.handlesOf rest

def Changes.handlesOf : List Changes → List Handle
  | [] => []
  | row :: rest => row.handles ++ Changes.handlesOf rest

end

/-- **A payload that was made of changes**, with the inserts that refer back: `ok` says which nodes
the payload may name, and `back` which the inserts may be. -/
structure Payload.Made (ok back : Handle → Prop) (payload : Payload)
    (reverse : List (String × List Handle)) : Prop where
  handles : ∀ h ∈ payload.handles, ok h
  own : payload.takesKey = false
  reverse : ∀ e ∈ reverse, ∀ h ∈ e.2, back h

/-- The parts of a row as a payload. -/
def RowParts.Made (ok back : Handle → Prop) (parts : RowParts) : Prop :=
  Payload.Made ok back (.values parts.values) parts.reverse

/-- The select of the primary key of what a node gives. -/
def Node.keyOf (h : Handle) (r : Relation) : Node :=
  .select (.ofSource (.node h) (.ofFields [r.primaryKey]))

/-- A node can be added, and it is one of those that may be named then. -/
def Graph.Takes (inv : Graph → Prop) (ok : Graph → Handle → Prop) (g : Graph) (node : Node) :
    Prop :=
  inv (g.push node) ∧ ok (g.push node) g.nextHandle

/-- **An invariant of graphs under which payloads can be built.** It is kept if the key of a node
is read that may be named, and if a row is inserted that names such nodes. A row that refers back
also takes the key of the row around it. -/
structure Graph.PayloadRules (inv : Graph → Prop) (ok back : Graph → Handle → Prop) : Prop where
  ok_mono : ∀ {g g' h}, ok g h → g.Within g' → ok g' h
  back_mono : ∀ {g g' h}, back g h → g.Within g' → back g' h
  key : ∀ {g h id r}, inv g → ok g h → g.relationOf (.node h) = .ok (some id) →
    g.schema.relation id = .ok r → g.Takes inv ok (.keyOf h r)
  insert : ∀ {g id payload reverse}, inv g → (∃ r, g.schema.relation id = .ok r) →
    payload.Made (ok g) (back g) reverse → g.Takes inv ok (.insert id payload reverse)
  insertBack : ∀ {g id values reverse} (via), inv g → (∃ r, g.schema.relation id = .ok r) →
    (Payload.values values).Made (ok g) (back g) reverse →
      g.Takes inv back (.insert id (.values (values ++ [(via, .parentKey)])) reverse)

section Parts

variable {ok ok' back back' : Handle → Prop}

lemma Payload.Made.imp {payload : Payload} {reverse : List (String × List Handle)}
    (hp : payload.Made ok back reverse) (ho : ∀ h, ok h → ok' h) (hb : ∀ h, back h → back' h) :
    payload.Made ok' back' reverse :=
  ⟨fun h hh => ho h (hp.handles h hh), hp.own, fun e he h hh => hb h (hp.reverse e he h hh)⟩

lemma RowParts.made_empty : RowParts.empty.Made ok back :=
  ⟨by simp [RowParts.empty, Payload.handles], rfl, by simp [RowParts.empty]⟩

lemma RowParts.Made.addValue {parts : RowParts} (hp : parts.Made ok back) (name : String)
    {v : PayloadValue} (hv : v.isKey = false) (hh : ∀ h, v = .query h → ok h) :
    (parts.addValue name v).Made ok back := by
  refine ⟨fun k hk => ?_, ?_, hp.reverse⟩
  · simp only [RowParts.addValue, Payload.handles, flatMap_append, mem_append] at hk
    rcases hk with hk | hk
    · exact hp.handles k hk
    · grind
  · have hown : parts.values.any (·.2.isKey) = false := hp.own
    simp [RowParts.addValue, Payload.takesKey, hown, hv]

lemma RowParts.Made.addReverse {parts : RowParts} (hp : parts.Made ok back) (name : String)
    {handles : List Handle} (hh : ∀ h ∈ handles, back h) :
    (parts.addReverse name handles).Made ok back := by
  refine ⟨hp.handles, hp.own, fun e he => ?_⟩
  rcases mem_append.mp he with he | he
  · exact hp.reverse e he
  · rwa [mem_singleton.mp he]

end Parts

section Rules

variable {inv : Graph → Prop} {ok back : Graph → Handle → Prop} {g g' : Graph} {h : Handle}

lemma keyOf_keeps (rules : Graph.PayloadRules inv ok back) (hh : ok g h) :
    Build.Keeps inv (keyOf h) g fun k g' => ok g' k := by
  refine .get_bind (.lift_bind fun id? hid => ?_)
  cases id? with
  | none => exact .of_throw
  | some id =>
    refine .lift_bind fun r hr => .of_inv fun hg => ?_
    obtain ⟨hinv, hok⟩ := rules.key hg hh hid hr
    exact .push (fun _ => hinv) hok

lemma scalarOf_keeps (rules : Graph.PayloadRules inv ok back) (hh : ok g h) :
    Build.Keeps inv (scalarOf h) g fun k g' => ok g' k := by
  refine (Build.Keeps.nodeOf h).bind ?_
  rintro node g' - ⟨rfl, -⟩
  split
  · exact keyOf_keeps rules hh
  · exact .of_pure hh

lemma RowParts.Made.mono (rules : Graph.PayloadRules inv ok back) {parts : RowParts}
    (hp : parts.Made (ok g) (back g)) (hw : g.Within g') : parts.Made (ok g') (back g') :=
  Payload.Made.imp hp (fun _ hh => rules.ok_mono hh hw) fun _ hh => rules.back_mono hh hw

mutual

/-- **The payload of changes**, by recursion on them. -/
theorem payloadOf_keeps (rules : Graph.PayloadRules inv ok back) (id : RelationId)
    (mode : WriteMode) {g : Graph} : ∀ {changes : Changes}, (∀ h ∈ changes.handles, ok g h) →
      Build.Keeps inv (payloadOf id mode changes) g fun result g' =>
        result.1.Made (ok g') (back g') result.2
  | ⟨entries, some source⟩, hh => by
    have hsource : ok g source := hh source (by simp [Changes.handles])
    have hread : Build.Keeps inv (do discard (nodeOf source); return (Payload.query source, [])) g
        fun (result : Payload × List (String × List Handle)) g' =>
          result.1.Made (ok g') (back g') result.2 := by
      refine (Build.Keeps.nodeOf source).discard_bind ?_
      rintro _ g' - ⟨rfl, -⟩
      exact .of_pure ⟨by simpa [Payload.handles] using hsource, rfl, by simp⟩
    rw [payloadOf]
    split
    · exact .throw_bind
    · exact hread
  | ⟨entries, none⟩, hh => by
    refine .get_bind (.lift_bind fun r _ => ?_)
    refine (partsOf_keeps rules r mode RowParts.made_empty ?_).bind fun parts g' _ hparts =>
      .of_pure hparts
    simpa [Changes.handles] using hh

theorem partsOf_keeps (rules : Graph.PayloadRules inv ok back) (r : Relation) (mode : WriteMode)
    {parts : RowParts} {g : Graph} (hp : parts.Made (ok g) (back g)) :
    ∀ {entries : List (String × Change)}, (∀ h ∈ Change.handlesOf entries, ok g h) →
      Build.Keeps inv (partsOf r mode parts entries) g fun parts' g' =>
        parts'.Made (ok g') (back g')
  | [], _ => .of_pure hp
  | (name, change) :: rest, hh => by
    rw [Change.handlesOf, forall_mem_append] at hh
    refine .lift_bind fun c _ => ?_
    refine (changeInto_keeps rules c name mode hp hh.1).bind fun parts' g' hw hp' => ?_
    exact partsOf_keeps rules r mode hp' fun h hmem => rules.ok_mono (hh.2 h hmem) hw

theorem changeInto_keeps (rules : Graph.PayloadRules inv ok back) (c : Column) (name : String)
    (mode : WriteMode) {parts : RowParts} {g : Graph} (hp : parts.Made (ok g) (back g)) :
    ∀ {change : Change}, (∀ h ∈ change.handles, ok g h) →
      Build.Keeps inv (changeInto c name mode parts change) g fun parts' g' =>
        parts'.Made (ok g') (back g')
  | .value v, _ => by
    rw [changeInto]
    split
    · exact .throw_bind
    · exact .of_pure (hp.addValue name rfl (by simp))
  | .query h, hh => by
    have hok : ok g h := hh h (by simp [Change.handles])
    rw [changeInto]
    split
    · exact .throw_bind
    · refine (scalarOf_keeps rules hok).bind fun k g' hw hk => .of_pure ?_
      refine (RowParts.Made.mono rules hp hw).addValue name rfl ?_
      rintro _ ⟨⟩
      exact hk
  | .nested changes, hh => by
    rw [changeInto]
    split
    · refine .get_bind (.lift_bind fun id hid => ?_)
      refine (payloadOf_keeps rules id .insert hh).bind fun result g1 hw1 hmade => ?_
      obtain ⟨r, -, hr⟩ := Schema.get?_of_resolve hid
      rw [← hw1.schema] at hr
      refine .of_inv fun hg1 => ?_
      obtain ⟨hinv, hok⟩ := rules.insert hg1 ⟨r, hr⟩ hmade
      refine .push_bind (fun _ => hinv) ?_
      refine (keyOf_keeps rules hok).bind fun key g2 hw2 hkey => .of_pure ?_
      have hw : g.Within g2 := hw1.trans ((Graph.within_push _ _).trans hw2)
      refine (RowParts.Made.mono rules hp hw).addValue name rfl ?_
      rintro _ ⟨⟩
      exact hkey
    · exact .of_throw
  | .many rows, hh => by
    have hrows : Build.Keeps inv (match c.kind with
        | .reverse target via => do
            let id ← (← get).schema.resolve target
            return parts.addReverse name (← rowsInto name via id rows)
        | _ => throw (.invalidValue name .rowsNeedReverse)) g
        fun parts' g' => parts'.Made (ok g') (back g') := by
      split
      · refine .get_bind (.lift_bind fun id hid => ?_)
        obtain ⟨r, -, hr⟩ := Schema.get?_of_resolve hid
        refine (rowsInto_keeps rules name _ id ⟨r, hr⟩ hh).bind fun handles g' hw hhandles =>
          .of_pure ?_
        exact (RowParts.Made.mono rules hp hw).addReverse name hhandles
      · exact .of_throw
    rw [changeInto]
    split
    · exact .throw_bind
    · exact hrows

theorem rowsInto_keeps (rules : Graph.PayloadRules inv ok back) (name via : String)
    (id : RelationId) {g : Graph} (hr : ∃ r, g.schema.relation id = .ok r) :
    ∀ {rows : List Changes}, (∀ h ∈ Changes.handlesOf rows, ok g h) →
      Build.Keeps inv (rowsInto name via id rows) g fun handles g' => ∀ h ∈ handles, back g' h
  | [], _ => .of_pure (by simp)
  | row :: rest, hh => by
    rw [Changes.handlesOf, forall_mem_append] at hh
    have hrow : Build.Keeps inv (do
        match ← payloadOf id .insert row with
        | (.query _, _) => throw (.conflictingArguments (.rowsFromQuery name))
        | (.values values, reverse) => do
            let h ← pushNode (.insert id (.values (values ++ [(via, .parentKey)])) reverse)
            return h :: (← rowsInto name via id rest)) g
          fun handles g' => ∀ h ∈ handles, back g' h := by
      refine (payloadOf_keeps rules id .insert hh.1).bind fun result g1 hw1 hmade => ?_
      rw [← hw1.schema] at hr
      split
      · exact .of_throw
      · refine .of_inv fun hg1 => ?_
        obtain ⟨hinv, hback⟩ := rules.insertBack via hg1 hr hmade
        refine .push_bind (fun _ => hinv) ?_
        refine (rowsInto_keeps rules name via id (g := g1.push _) hr fun h hmem =>
          rules.ok_mono (hh.2 h hmem) (hw1.trans (Graph.within_push _ _))).bind
            fun more g2 hw2 hmore => .of_pure ?_
        exact forall_mem_cons.mpr ⟨rules.back_mono hback hw2, hmore⟩
    rw [rowsInto]
    split
    · exact .throw_bind
    · exact hrow

end

end Rules

lemma payloadOf_within (id : RelationId) (mode : WriteMode) (changes : Changes) (g : Graph) :
    g.Within (payloadOf id mode changes g).2 := by
  have rules : Graph.PayloadRules (fun _ => True) (fun _ _ => True) fun _ _ => True :=
    ⟨fun _ _ => trivial, fun _ _ => trivial, fun _ _ _ _ => ⟨trivial, trivial⟩,
      fun _ _ _ => ⟨trivial, trivial⟩, fun _ _ _ _ => ⟨trivial, trivial⟩⟩
  exact (payloadOf_keeps rules id mode (fun _ _ => trivial) trivial _ _ rfl).1

end StagedSql
