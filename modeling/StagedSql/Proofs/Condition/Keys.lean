import Mathlib.Data.List.Infix
import StagedSql.Condition.Key

/-!
What keys of lookups are made of.
-/

namespace StagedSql

open List LookupKey

/-! ### Cuts -/

/-- **A text cut at the leftmost occurrences of a pair.** No pair begins before the one that is cut
out, and what comes behind it is cut in turn, until no pair is left. -/
inductive Cut (sep : Char) : List Char → List (List Char) → Prop
  | last {s : List Char} (h : ¬ [sep, sep] <:+: s) : Cut sep s [s]
  | pair {s rest : List Char} {segments : List (List Char)} (h : ¬ [sep, sep] <:+: s ++ [sep])
      (hrest : Cut sep rest segments) : Cut sep (s ++ sep :: sep :: rest) (s :: segments)

section Cuts

variable {sep : Char} {s : List Char} {segments : List (List Char)}

/-- The segments with the pair between them are the text. -/
lemma Cut.intercalate_eq (h : Cut sep s segments) : [sep, sep].intercalate segments = s := by
  induction h with
  | last => rw [intercalate_singleton]
  | pair h hrest ih =>
    cases hrest <;> rw [intercalate_cons_cons, ih] <;> simp

lemma not_pair_cons {c d : Char} : ¬ [sep, sep] <:+: c :: d :: s ↔
    ¬ (c = sep ∧ d = sep) ∧ ¬ [sep, sep] <:+: d :: s := by
  rw [infix_cons_iff, not_or]
  simp [eq_comm]

lemma Cut.cons {c d : Char} (hne : ¬ (c = sep ∧ d = sep)) (h : Cut sep (d :: s) segments) :
    Cut sep (c :: d :: s) (consSegment c segments) := by
  generalize htext : d :: s = text at h
  cases h with
  | last h =>
    subst htext
    exact .last (not_pair_cons.mpr ⟨hne, h⟩)
  | @pair first rest segments h hrest =>
    refine Cut.pair (s := c :: first) ?_ hrest
    cases first <;> cases htext <;> exact not_pair_cons.mpr ⟨hne, h⟩

lemma cut_splitAtPair (sep : Char) (s : List Char) : Cut sep s (splitAtPair sep s) := by
  fun_induction splitAtPair sep s with
  | case1 => exact .last (by simp)
  | case2 c => exact .last (fun h => by simpa using h.length_le)
  | case3 c d cs h ih =>
    obtain ⟨rfl, rfl⟩ := h
    exact Cut.pair (s := []) (fun h => by simpa using h.length_le) ih
  | case4 c d cs h ih => exact ih.cons h

/-- **There is one way to cut a text.** -/
lemma Cut.splitAtPair_eq (h : Cut sep s segments) : splitAtPair sep s = segments := by
  induction h with
  | @last s h =>
    fun_induction splitAtPair sep s with
    | case1 => rfl
    | case2 => rfl
    | case3 c d cs heq => exact absurd heq (not_pair_cons.mp h).1
    | case4 c d cs _ ih => rw [ih (not_pair_cons.mp h).2, consSegment]
  | @pair s rest segments h _ ih =>
    induction s with
    | nil => rw [nil_append, splitAtPair, if_pos ⟨rfl, rfl⟩, ih]
    | cons c s hs =>
      cases s <;>
      · have hrest := hs (not_pair_cons.mp h).2
        simp only [cons_append, nil_append] at hrest ⊢
        rw [splitAtPair, if_neg (not_pair_cons.mp h).1, hrest, consSegment]

/-- There is one way to cut a text, which is the one in which keys are cut. -/
lemma cut_iff : Cut sep s segments ↔ splitAtPair sep s = segments :=
  ⟨Cut.splitAtPair_eq, fun h => h ▸ cut_splitAtPair sep s⟩

end Cuts

/-! ### Names -/

/-- A name that can be a segment: it is not empty, holds no two underscores in a row and does not
end in one. -/
def IsSegment (name : String) : Prop :=
  name ≠ "" ∧ ¬ ['_', '_'] <:+: name.toList ∧ ¬ ['_'] <:+ name.toList

lemma IsSegment.not_pair {name : String} (h : IsSegment name) :
    ¬ ['_', '_'] <:+: name.toList ++ ['_'] := by
  rintro ⟨a, b, hab⟩
  rcases eq_nil_or_concat b with rfl | ⟨b, c, rfl⟩
  · -- the pair is at the end, so that the name ends in an underscore
    refine h.2.2 ⟨a, ?_⟩
    have hlast : a ++ ['_'] ++ ['_'] = name.toList ++ ['_'] := by simpa using hab
    exact (append_inj_left' hlast rfl).symm ▸ rfl
  · refine h.2.1 ⟨a, b, ?_⟩
    have hlast : a ++ ['_', '_'] ++ b ++ [c] = name.toList ++ ['_'] := by simpa using hab
    exact append_inj_left' hlast rfl

lemma cut_intercalate {names : List String} {last : String} (h : ∀ name ∈ names, IsSegment name)
    (hlast : ¬ ['_', '_'] <:+: last.toList) :
    Cut '_' ("__".intercalate (names ++ [last])).toList ((names ++ [last]).map String.toList) := by
  induction names with
  | nil => simpa using Cut.last hlast
  | cons name names ih =>
    have hrest := ih fun n hn => h n (by simp [hn])
    have hcons : ("__".intercalate (name :: names ++ [last])).toList =
        name.toList ++ '_' :: '_' :: ("__".intercalate (names ++ [last])).toList := by
      cases names <;> simp
    rw [hcons]
    exact .pair (h name (by simp)).not_pair hrest

/-! ### Operators -/

lemma Operator.ofSuffix?_eq_some {name : String} {op : Operator} :
    Operator.ofSuffix? name = some op ↔ op.suffix = name := by
  constructor
  · intro h
    simpa using find?_some h
  · rintro rfl
    cases op <;> decide

lemma Operator.isSegment_suffix (op : Operator) : IsSegment op.suffix := by
  cases op <;> exact ⟨by decide, by decide, by decide⟩

lemma splitOperator_concat {front : List String} (h : front ≠ []) (op : Operator) :
    splitOperator (front ++ [op.suffix]) = (front, op) := by
  have hlen : 1 < (front ++ [op.suffix]).length := by
    simpa using length_pos_iff.mpr h
  rw [splitOperator, getLast?_concat, Option.bind_some, Operator.ofSuffix?_eq_some.mpr rfl]
  simp only [if_pos hlen, dropLast_concat]

/-- The operator that segments end in, if there are others before it, and the field. -/
lemma splitOperator_spec (front : List String) (last : String) :
    ∃ (path : List String) (field : String) (suffix : Option Operator),
      splitOperator (front ++ [last]) = (path ++ [field], suffix.getD .eq) ∧
      path ++ field :: suffix.toList.map Operator.suffix = front ++ [last] ∧
      (suffix.isSome = true ↔ front ≠ [] ∧ ∃ op : Operator, last = op.suffix) := by
  cases hop : Operator.ofSuffix? last with
  | none =>
    refine ⟨front, last, none, ?_, rfl, ?_⟩
    · rw [splitOperator, getLast?_concat, Option.bind_some, hop]
      rfl
    · simp only [Option.isSome_none, Bool.false_eq_true, false_iff, not_and, not_exists]
      rintro - op rfl
      rw [Operator.ofSuffix?_eq_some.mpr rfl] at hop
      cases hop
  | some op =>
    obtain rfl := Operator.ofSuffix?_eq_some.mp hop
    rcases eq_nil_or_concat' front with rfl | ⟨path, field, rfl⟩
    · refine ⟨[], op.suffix, none, ?_, rfl, by simp⟩
      rw [splitOperator, getLast?_concat, Option.bind_some, hop]
      rfl
    · exact ⟨path, field, some op, splitOperator_concat (by simp) op, by simp, by simp⟩

/-! ### Keys -/

section Keys

variable {key : String}

lemma map_toList_segments (key : String) :
    (segments key).map String.toList = splitAtPair '_' key.toList := by
  simp [segments]

lemma intercalate_segments (key : String) : "__".intercalate (segments key) = key := by
  rw [← String.toList_inj, String.toList_intercalate, map_toList_segments]
  exact (cut_splitAtPair '_' key.toList).intercalate_eq

lemma exists_segments (key : String) :
    ∃ front last, segments key = front ++ [last] := by
  refine (eq_nil_or_concat' _).resolve_left fun hnil => ?_
  have hcut := cut_splitAtPair '_' key.toList
  rw [← map_toList_segments, hnil, map_nil] at hcut
  generalize key.toList = text at hcut
  cases hcut

lemma parse_eq {path : List String} {field : String} {op : Operator}
    (h : splitOperator (segments key) = (path ++ [field], op)) :
    parse key = if "" ∈ segments key then
      .error (.invalidLookup key "" .emptySegment) else .ok ⟨path, field, op⟩ := by
  simp [parse, h]

/-- **Keys are segments with two underscores between them.** A key is cut at the leftmost pairs of
underscores, in the one way there is, and is refused if a segment is empty. Otherwise the links, the
field and the operator, if one is recognised, give the key back, and an operator is recognised if
the last of several segments is its name. Names that are joined are read back. -/
theorem keys_are_segments :
    (∀ key : String, ∃ segments : List String,
      (∀ cut, Cut '_' key.toList cut ↔ cut = segments.map String.toList) ∧
      ((∃ e, LookupKey.parse key = .error e) ↔ "" ∈ segments) ∧
      ∀ path, LookupKey.parse key = .ok path → ∃ suffix : Option Operator,
        path.op = suffix.getD .eq ∧
        "__".intercalate (path.joins ++ path.field :: suffix.toList.map Operator.suffix) = key ∧
        (suffix.isSome = true ↔
          2 ≤ segments.length ∧ ∃ op : Operator, segments.getLast? = some op.suffix)) ∧
    ∀ (joins : List String) (field : String) (op : Operator),
      (∀ name ∈ joins ++ [field], IsSegment name) →
        LookupKey.parse ("__".intercalate (joins ++ [field, op.suffix])) =
          .ok ⟨joins, field, op⟩ := by
  constructor
  · intro key
    obtain ⟨front, last, hfront⟩ := exists_segments key
    obtain ⟨path, field, suffix, hsplit, hjoin, hiff⟩ := splitOperator_spec front last
    have hparse := parse_eq (hfront ▸ hsplit)
    refine ⟨LookupKey.segments key, fun cut => ?_, ?_, fun read hread => ?_⟩
    · rw [map_toList_segments, cut_iff, eq_comm]
    · rw [hparse]
      split <;> simp_all
    · rw [hparse] at hread
      split at hread
      · cases hread
      · cases hread
        refine ⟨suffix, rfl, ?_, ?_⟩
        · rw [hjoin, ← hfront, intercalate_segments]
        · rw [hiff, hfront]
          simp [Nat.succ_le_iff, length_pos_iff]
  · intro joins field op h
    have hsegments : LookupKey.segments ("__".intercalate (joins ++ [field, op.suffix])) =
        joins ++ [field] ++ [op.suffix] := by
      rw [LookupKey.segments, append_cons, cut_iff.mp (cut_intercalate h op.isSegment_suffix.2.1)]
      simp
    have hempty : "" ∉ joins ++ [field] ++ [op.suffix] := by
      intro hmem
      rcases mem_append.mp hmem with hmem | hmem
      · exact (h "" hmem).1 rfl
      · exact op.isSegment_suffix.1 (mem_singleton.mp hmem).symm
    rw [parse_eq (hsegments ▸ splitOperator_concat (by simp) op), hsegments, if_neg hempty]

end Keys

theorem keys_are_segments_country :
    (∀ name ∈ ["actors", "home_address", "_country"], IsSegment name) ∧
      LookupKey.parse "actors__home_address___country__ct" =
        .ok ⟨["actors", "home_address"], "_country", .contains⟩ := by
  have h : ∀ name ∈ ["actors", "home_address", "_country"], IsSegment name := by
    intro name hname
    simp only [mem_cons, not_mem_nil, or_false] at hname
    rcases hname with rfl | rfl | rfl <;> exact ⟨by decide, by decide, by decide⟩
  exact ⟨h, keys_are_segments.2 ["actors", "home_address"] "_country" .contains h⟩

end StagedSql
