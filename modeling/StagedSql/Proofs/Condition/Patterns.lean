import Mathlib.Data.List.Infix
import StagedSql.Condition.ToSql

/-!
Patterns of LIKE.
-/

namespace StagedSql

open List

/-- A piece of a pattern. -/
inductive LikeItem where
  /-- A character that stands for itself. -/
  | char (c : Char)
  /-- Any single character. -/
  | one
  /-- Any text. -/
  | many
  deriving DecidableEq

/-- What a character stands for if it is not escaped. -/
def LikeItem.ofChar (c : Char) : LikeItem :=
  if c = '%' then .many else if c = '_' then .one else .char c

/-- The pieces of a pattern. An escaped character stands for itself, and nothing is left to escape
at the end of a malformed pattern. -/
def likeItems (escape : Char) : List Char → Option (List LikeItem)
  | [] => some []
  | [c] => if c = escape then none else some [.ofChar c]
  | c :: d :: rest =>
    if c = escape then (likeItems escape rest).map (.char d :: ·)
    else (likeItems escape (d :: rest)).map (.ofChar c :: ·)

/-- Whether a text is made of pieces, one after the other. -/
def LikeItem.spell : List LikeItem → List Char → Bool
  | [], s => s.isEmpty
  | .char c :: items, s => s.head? == some c && spell items s.tail
  | .one :: items, s => !s.isEmpty && spell items s.tail
  | .many :: items, s => s.tails.any (spell items)

/-- **Whether a text matches a pattern**, if the pattern is well formed. -/
def like? (escape : Char) (pattern s : String) : Option Bool :=
  (likeItems escape pattern.toList).map (LikeItem.spell · s.toList)

/-! ### Escaped texts -/

lemma likeItems_cons {escape c : Char} (h : c ≠ escape) (rest : List Char) :
    likeItems escape (c :: rest) = (likeItems escape rest).map (.ofChar c :: ·) := by
  cases rest with
  | nil => simp [likeItems, h]
  | cons d rest => rw [likeItems, if_neg h]

/-- An escaped text stands for itself, whatever comes behind it. -/
lemma likeItems_escapeLike (t rest : List Char) :
    likeItems '\\' ((escapeLike (.ofList t)).toList ++ rest) =
      (likeItems '\\' rest).map (t.map .char ++ ·) := by
  rw [escapeLike, String.toList_ofList, String.toList_ofList]
  induction t with
  | nil => simp
  | cons c t ih =>
    have hcons : (likeItems '\\' rest).map ((c :: t).map LikeItem.char ++ ·) =
        ((likeItems '\\' rest).map (t.map LikeItem.char ++ ·)).map (.char c :: ·) := by
      rw [Option.map_map]
      rfl
    rw [hcons, ← ih, flatMap_cons, append_assoc]
    split
    · rw [cons_append, cons_append, nil_append, likeItems, if_pos rfl]
    · rename_i hc
      simp only [Bool.or_eq_true, decide_eq_true_eq, not_or] at hc
      rw [cons_append, nil_append, likeItems_cons hc.1.1, LikeItem.ofChar, if_neg hc.1.2,
        if_neg hc.2]

/-! ### Matching -/

namespace LikeItem

variable {items : List LikeItem} {s : List Char}

lemma spell_chars {t : List Char} :
    spell (t.map .char ++ items) s = true ↔ ∃ rest, s = t ++ rest ∧ spell items rest = true := by
  induction t generalizing s with
  | nil => simp
  | cons c t ih =>
    cases s with
    | nil => simp [spell]
    | cons d s =>
      have hcons : spell ((c :: t).map .char ++ items) (d :: s) = true ↔
          d = c ∧ spell (t.map .char ++ items) s = true := by
        simp [spell]
      grind

lemma spell_many :
    spell (.many :: items) s = true ↔ ∃ before after, s = before ++ after ∧
      spell items after = true := by
  simp only [spell, any_eq_true, mem_tails]
  constructor
  · rintro ⟨after, ⟨before, rfl⟩, h⟩
    exact ⟨before, after, rfl, h⟩
  · tauto

lemma spell_around {t : List Char} :
    spell (.many :: (t.map .char ++ [.many])) s = true ↔
      ∃ before after, s = before ++ t ++ after := by
  have hend : ∀ rest : List Char, spell [.many] rest = true := by
    intro rest
    rw [spell_many]
    exact ⟨rest, [], (append_nil rest).symm, rfl⟩
  simp only [spell_many, spell_chars, hend, and_true]
  simp

end LikeItem

/-- **A text is looked for as it is written.** The comparison of a field that is to contain a text
binds a pattern with the backslash as escape character. The pattern is well formed, and what matches
it are the texts in which the given one occurs. -/
theorem contains_finds_texts (key : String) (field : Expr) (t : String) :
    ∃ pattern, pattern = "%" ++ escapeLike t ++ "%" ∧
      compareValue key field .contains (.text t) =
        .ok (.like false field (.param (.text pattern)) '\\') ∧
      ∀ s : String, like? '\\' pattern s ≠ none ∧
        (like? '\\' pattern s = some true ↔ ∃ before after : String, s = before ++ t ++ after) := by
  refine ⟨_, rfl, rfl, fun s => ?_⟩
  have hpieces : likeItems '\\' ("%" ++ escapeLike t ++ "%").toList =
      some (.many :: (t.toList.map .char ++ [.many])) := by
    have htext := likeItems_escapeLike t.toList ['%']
    rw [String.ofList_toList] at htext
    calc likeItems '\\' ("%" ++ escapeLike t ++ "%").toList
        = likeItems '\\' ('%' :: ((escapeLike t).toList ++ ['%'])) := by simp
      _ = (likeItems '\\' ((escapeLike t).toList ++ ['%'])).map (.many :: ·) :=
        likeItems_cons (by decide) _
      _ = some (.many :: (t.toList.map .char ++ [.many])) := by rw [htext]; rfl
  rw [like?, hpieces, Option.map_some]
  refine ⟨by simp, ?_⟩
  rw [Option.some.injEq, LikeItem.spell_around]
  constructor
  · rintro ⟨before, after, h⟩
    refine ⟨.ofList before, .ofList after, String.toList_inj.mp ?_⟩
    simpa using h
  · rintro ⟨before, after, rfl⟩
    exact ⟨before.toList, after.toList, by simp⟩

end StagedSql
