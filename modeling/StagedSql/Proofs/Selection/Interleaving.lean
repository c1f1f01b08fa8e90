import Mathlib.Data.List.Induction
import StagedSql.Proofs.Plan.Requirements
import StagedSql.Selection.Spec

/-!
The calls that build a selection.
-/

namespace StagedSql

open List

/-! ### First additions -/

section FirstAdditions

variable {α β : Type} [BEq α] [LawfulBEq α]

lemma addOnce_eraseDups (xs : List α) (x : α) :
    addOnce xs.eraseDups x = (xs ++ [x]).eraseDups := by
  rw [addOnce, eraseDups_append]
  by_cases h : x ∈ xs <;> simp [h, removeAll, eraseDups_cons]

lemma filter_eraseDups (p : α → Bool) (xs : List α) :
    xs.eraseDups.filter p = (xs.filter p).eraseDups := by
  induction xs using List.reverseRecOn with
  | nil => rfl
  | append_singleton xs x ih =>
    rw [← addOnce_eraseDups, filter_append, addOnce]
    by_cases hp : p x = true
    · rw [filter_cons_of_pos hp, filter_nil, ← addOnce_eraseDups, ← ih, addOnce]
      by_cases hx : x ∈ xs <;> simp [hx, hp]
    · rw [filter_cons_of_neg hp, filter_nil, append_nil, ← ih]
      by_cases hx : x ∈ xs <;> simp [hx, hp]

lemma map_fst_putKey (key : α) (value : β) (entries : List (α × β)) :
    (putKey key value entries).map (·.1) = addOnce (entries.map (·.1)) key := by
  induction entries with
  | nil => rfl
  | cons e rest ih =>
    obtain ⟨k, v⟩ := e
    rw [putKey]
    by_cases h : k = key
    · simp [h, addOnce]
    · simp only [beq_false_of_ne h, Bool.false_eq_true, if_false, map_cons, ih, addOnce]
      by_cases hmem : key ∈ rest.map (·.1) <;> simp_all [eq_comm]

lemma hasKey_iff {entries : List (α × β)} {key : α} :
    hasKey entries key = true ↔ key ∈ entries.map (·.1) := by
  simp [hasKey]

lemma map_fst_ofEntries (entries : List (α × β)) :
    (ofEntries entries).map (·.1) = (entries.map (·.1)).eraseDups := by
  induction entries using List.reverseRecOn with
  | nil => rfl
  | append_singleton entries e ih =>
    rw [map_append, map_singleton, ← addOnce_eraseDups, ← ih, ← map_fst_putKey _ e.2, ofEntries,
      foldl_append]
    rfl

end FirstAdditions

lemma lookup_ofEntries {α : Type} (entries : List (String × α)) (key : String) :
    (ofEntries entries).lookup key = entries.reverse.lookup key := by
  induction entries using List.reverseRecOn with
  | nil => rfl
  | append_singleton entries e ih =>
    rw [ofEntries, foldl_append, foldl_cons, foldl_nil, lookup_putKey, ← ofEntries, ih,
      reverse_append, reverse_singleton, singleton_append, lookup_cons]
    by_cases h : key = e.1
    · simp [h]
    · simp [h, beq_false_of_ne h]

/-! ### Calls -/

/-- A field or a lookup that is added to a selection. -/
inductive SelectionCall where
  | field (name : String)
  | lookup (name : String) (rows : Lookup)

namespace SelectionCall

def run (s : Selection) : SelectionCall → Selection
  | .field name => s.addField name
  | .lookup name rows => s.addLookup name rows

def field? : SelectionCall → Option String
  | .field name => some name
  | .lookup _ _ => none

def lookup? : SelectionCall → Option (String × Lookup)
  | .field _ => none
  | .lookup name rows => some (name, rows)

end SelectionCall

/-- The selection that calls build. -/
def Selection.ofCalls (calls : List SelectionCall) : Selection :=
  calls.foldl SelectionCall.run .empty

/-- **What calls build.** The induction is on the calls from the last one: a field is dropped when a
lookup of its name is added, and is not added when there is one. -/
lemma Selection.ofCalls_eq (calls : List SelectionCall) :
    ofCalls calls = ⟨((calls.filterMap SelectionCall.field?).filter
          (· ∉ (calls.filterMap SelectionCall.lookup?).map (·.1))).eraseDups,
        ofEntries (calls.filterMap SelectionCall.lookup?)⟩ := by
  induction calls using List.reverseRecOn with
  | nil => rfl
  | append_singleton calls call ih =>
    have hstep : ofCalls (calls ++ [call]) = call.run (ofCalls calls) := by
      rw [ofCalls, foldl_append]
      rfl
    rw [hstep, ih, filterMap_append, filterMap_append]
    have hkeys : ∀ name, hasKey (ofEntries (calls.filterMap SelectionCall.lookup?)) name = true ↔
        name ∈ (calls.filterMap SelectionCall.lookup?).map (·.1) := by
      intro name
      rw [hasKey_iff, map_fst_ofEntries, mem_eraseDups]
    cases call with
    | field name =>
      have hfield : [SelectionCall.field name].filterMap SelectionCall.field? = [name] := rfl
      have hlookup : [SelectionCall.field name].filterMap SelectionCall.lookup? = [] := rfl
      rw [SelectionCall.run, addField, hfield, hlookup, append_nil, filter_append]
      by_cases h : name ∈ (calls.filterMap SelectionCall.lookup?).map (·.1)
      · rw [if_pos ((hkeys name).mpr h), filter_cons_of_neg (by simpa using h), filter_nil,
          append_nil]
      · rw [if_neg ((hkeys name).not.mpr h), filter_cons_of_pos (by simpa using h), filter_nil,
          addOnce_eraseDups]
    | lookup name rows =>
      have hfield : [SelectionCall.lookup name rows].filterMap SelectionCall.field? = [] := rfl
      have hlookup : [SelectionCall.lookup name rows].filterMap SelectionCall.lookup? =
        [(name, rows)] := rfl
      rw [SelectionCall.run, addLookup, filter_eraseDups, filter_filter, hfield, hlookup,
        append_nil, ofEntries, ofEntries, foldl_append]
      congr 2
      refine filter_congr fun x _ => ?_
      rw [map_append, map_singleton, Bool.eq_iff_iff]
      simp only [Bool.and_eq_true, bne_iff_ne, decide_eq_true_iff, mem_append, mem_singleton]
      tauto

/-- The calls that a written selection stands for, its fields first. -/
def SelectionSpec.calls : SelectionSpec → List SelectionCall
  | .fields names => names.map .field
  | .tree names lookups _ _ =>
    names.map .field ++ lookups.map fun entry => .lookup entry.1 entry.2.toLookup

/-- The lookup of related rows in a shape, as a written selection asks for it. -/
def SelectionSpec.called : SelectionSpec → Selection → Lookup
  | .tree _ _ true maxDepth, s => .recursive s maxDepth
  | _, s => .nested s

lemma SelectionSpec.addLookups_eq (s : Selection) (lookups : List (String × SelectionSpec)) :
    addLookups s lookups =
      (lookups.map fun entry => .lookup entry.1 entry.2.toLookup).foldl SelectionCall.run s := by
  induction lookups generalizing s with
  | nil => rfl
  | cons entry rest ih =>
    rw [addLookups, ih]
    rfl

lemma foldl_run_field (s : Selection) (names : List String) :
    (names.map SelectionCall.field).foldl SelectionCall.run s = names.foldl .addField s := by
  rw [foldl_map]
  rfl

lemma SelectionSpec.toSelection_eq (spec : SelectionSpec) :
    spec.toSelection = .ofCalls spec.calls := by
  cases spec with
  | fields names => rw [toSelection, Selection.ofCalls, calls, foldl_run_field, Selection.ofFields]
  | tree names lookups _ _ =>
    rw [toSelection, addLookups_eq, Selection.ofCalls, calls, foldl_append, foldl_run_field,
      Selection.ofFields]

lemma SelectionSpec.toLookup_eq (spec : SelectionSpec) :
    spec.toLookup = spec.called spec.toSelection := by
  rcases spec with _ | ⟨_, _, _ | _, _⟩ <;> rw [toLookup, toSelection] <;> rfl

/-- **A selection does not depend on the interleaving of calls.** No name is both a field and a
lookup. The fields are the names that were added as fields and never as lookups, in the order of
their first addition. So are the lookups, each with the value of its last addition. Calls that add
the same fields and the same lookups in their orders thus give the same selection. What is written
is the selection of its calls, and each lookup in it is that of its own calls. -/
theorem ofCalls_forgets_interleaving (calls : List SelectionCall) :
    let s := Selection.ofCalls calls
    let fields := calls.filterMap SelectionCall.field?
    let lookups := calls.filterMap SelectionCall.lookup?
    (∀ name ∈ s.fields, name ∉ s.lookups.map (·.1)) ∧
      s.fields = (fields.filter (· ∉ lookups.map (·.1))).eraseDups ∧
      s.lookups.map (·.1) = (lookups.map (·.1)).eraseDups ∧
      (∀ name, s.lookups.lookup name = lookups.reverse.lookup name) ∧
      (∀ calls' : List SelectionCall, calls'.filterMap SelectionCall.field? = fields →
        calls'.filterMap SelectionCall.lookup? = lookups → Selection.ofCalls calls' = s) ∧
      ∀ spec : SelectionSpec, spec.toSelection = .ofCalls spec.calls ∧
        spec.toLookup = spec.called (.ofCalls spec.calls) := by
  intro s fields lookups
  have hs : s = ⟨(fields.filter (· ∉ lookups.map (·.1))).eraseDups, ofEntries lookups⟩ :=
    Selection.ofCalls_eq calls
  have hkeys : s.lookups.map (·.1) = (lookups.map (·.1)).eraseDups := by
    rw [hs, map_fst_ofEntries]
  refine ⟨fun name hname => ?_, by rw [hs], hkeys, fun name => ?_, fun calls' hfields hlookups =>
    ?_, fun spec => ⟨spec.toSelection_eq, ?_⟩⟩
  · rw [hs, mem_eraseDups, mem_filter] at hname
    rw [hkeys, mem_eraseDups]
    exact of_decide_eq_true hname.2
  · rw [hs, lookup_ofEntries]
  · rw [hs, Selection.ofCalls_eq, hfields, hlookups]
  · rw [spec.toLookup_eq, spec.toSelection_eq]

/-- A name that is a field, a lookup and a field again, and a lookup whose value is replaced. -/
theorem ofCalls_forgets_interleaving_title :
    Selection.ofCalls [.field "title", .field "id", .lookup "title" (.query ⟨0, 1⟩),
        .field "title", .lookup "author" (.query ⟨0, 2⟩), .lookup "title" (.query ⟨0, 3⟩)] =
      ⟨["id"], [("title", .query ⟨0, 3⟩), ("author", .query ⟨0, 2⟩)]⟩ ∧
    Selection.ofCalls [.lookup "title" (.query ⟨0, 1⟩), .lookup "author" (.query ⟨0, 2⟩),
        .field "title", .field "id", .lookup "title" (.query ⟨0, 3⟩), .field "title"] =
      ⟨["id"], [("title", .query ⟨0, 3⟩), ("author", .query ⟨0, 2⟩)]⟩ := by
  refine ⟨rfl, ?_⟩
  obtain ⟨-, -, -, -, hsame, -⟩ := ofCalls_forgets_interleaving [.field "title", .field "id",
    .lookup "title" (.query ⟨0, 1⟩), .field "title", .lookup "author" (.query ⟨0, 2⟩),
    .lookup "title" (.query ⟨0, 3⟩)]
  exact hsame _ rfl rfl

end StagedSql
