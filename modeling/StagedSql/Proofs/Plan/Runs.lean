import Mathlib.Data.List.Basic
import Mathlib.Data.List.Forall2
import StagedSql.Plan.State

/-!
Runs of planning steps, and the names that they make up.

A step of planning either fails or gives a result and a new state. There is one rule for each way in
which steps are put together, so that a statement about a step is proved along its definition.
-/

namespace StagedSql

open Plan

variable {s s' : PlanState}

lemma exists_of_forall₂_right {α β : Type} {R : α → β → Prop} {l : List α} {m : List β}
    (h : List.Forall₂ R l m) : ∀ b ∈ m, ∃ a ∈ l, R a b := by
  induction h with
  | nil => simp
  | cons hab _ ih =>
    simp_all

lemma mem_of_lookup {α β : Type} [BEq α] [LawfulBEq α] {l : List (α × β)} {k : α} {v : β}
    (h : l.lookup k = some v) : (k, v) ∈ l := by
  obtain ⟨first, rest, rfl, -⟩ := List.lookup_eq_some_iff.mp h
  simp

namespace Plan

variable {α β : Type} {x : Plan α} {f : α → Plan β} {a : α} {e : Except Error α} {name : String}
  {scope : List String} {post : α → PlanState → Prop}

/-! ### Runs that succeed -/

lemma bind_run (h : x s = .ok (a, s')) : (x >>= f) s = f a s' := by
  change (x s >>= fun r => f r.1 r.2) = f a s'
  rw [h]
  rfl

lemma lift_run (h : e = .ok a) (s : PlanState) : (liftM e : Plan α) s = .ok (a, s) := by
  rw [h]
  rfl

lemma qualify_mem (h : name ∈ scope) (s : PlanState) :
    qualify name scope s = .ok (numberedName 'r' (s.names.relations + 1),
      { s with names := { s.names with relations := s.names.relations + 1 } }) := by
  change Except.ok (PlanState.qualify name scope s) = _
  rw [PlanState.qualify, if_pos (by simpa using h)]
  rfl

lemma qualify_not_mem (h : name ∉ scope) (s : PlanState) :
    qualify name scope s = .ok (name, s) := by
  change Except.ok (PlanState.qualify name scope s) = _
  rw [PlanState.qualify, if_neg (by simpa using h)]
  rfl

lemma bind_eq_ok {s'' : PlanState} {b : β}
    (h : (x >>= f) s = .ok (b, s'')) : ∃ a s', x s = .ok (a, s') ∧ f a s' = .ok (b, s'') := by
  change (x s >>= fun r => f r.1 r.2) = .ok (b, s'') at h
  cases hx : x s with
  | error e => rw [hx] at h; cases h
  | ok r =>
    rw [hx] at h
    exact ⟨r.1, r.2, rfl, h⟩

lemma lift_eq_ok (h : (liftM e : Plan α) s = .ok (a, s')) : e = .ok a ∧ s' = s := by
  cases e with
  | error e => cases h
  | ok b =>
    cases h
    exact ⟨rfl, rfl⟩

/-! ### What a step ensures -/

/-- Whenever the step succeeds from a state, its result and the new state are as stated. -/
def Ensures (x : Plan α) (s : PlanState) (post : α → PlanState → Prop) : Prop :=
  ∀ a s', x s = .ok (a, s') → post a s'

namespace Ensures

variable {e : Error} {x : Plan α} {post : β → PlanState → Prop} {f : α → Plan β} {a : α}

lemma mono {post post' : α → PlanState → Prop} (h : Ensures x s post)
    (hp : ∀ a s', post a s' → post' a s') : Ensures x s post' :=
  fun a s' hx => hp a s' (h a s' hx)

lemma bind {mid : α → PlanState → Prop} (hx : Ensures x s mid)
    (hf : ∀ a s', mid a s' → Ensures (f a) s' post) : Ensures (x >>= f) s post := by
  intro b s'' h
  obtain ⟨a, s', ha, hb⟩ := bind_eq_ok h
  exact hf a s' (hx a s' ha) b s'' hb

lemma bind_any (h : ∀ a s', Ensures (f a) s' post) : Ensures (x >>= f) s post := by
  intro b s'' hrun
  obtain ⟨a, s', -, hb⟩ := bind_eq_ok hrun
  exact h a s' b s'' hb

lemma of_pure {post : α → PlanState → Prop} (h : post a s) : Ensures (pure a) s post := by
  rintro b s' hb
  cases hb
  exact h

lemma of_lift {e : Except Error α} {post : α → PlanState → Prop} (h : ∀ a, e = .ok a → post a s) :
    Ensures (liftM e) s post := by
  intro a s' ha
  obtain ⟨he, rfl⟩ := lift_eq_ok ha
  exact h a he

lemma of_throw {post : α → PlanState → Prop} : Ensures (throw e) s post := by
  intro a s' h
  cases h

lemma run_bind (hx : x s = .ok (a, s')) (h : Ensures (f a) s' post) : Ensures (x >>= f) s post := by
  intro b t hb
  rw [bind_run hx] at hb
  exact h b t hb

lemma lift_bind {e : Except Error α}
    (h : ∀ a, e = .ok a → Ensures (f a) s post) : Ensures (liftM e >>= f) s post := by
  cases e with
  | error err => exact fun b t hb => by cases hb
  | ok a => exact run_bind rfl (h a rfl)

lemma throw_bind : Ensures (throw e >>= f) s post :=
  fun b t hb => by cases hb

end Ensures

/-- Steps without results are steps whose results are dropped. -/
lemma forM_eq_mapM (f : α → Plan PUnit) (l : List α) :
    l.forM f = l.mapM f >>= fun _ => pure ⟨⟩ := by
  induction l with
  | nil => rfl
  | cons a rest ih =>
    change (f a >>= fun _ => rest.forM f) = _
    simp [List.mapM_cons, ih]

/-! ### Steps that keep to a law -/

/-- What holds of all states, and how a state may become another one. -/
structure Law where
  holds : PlanState → Prop
  grows : PlanState → PlanState → Prop
  refl : ∀ s, grows s s
  trans : ∀ {s s' s''}, grows s s' → grows s' s'' → grows s s''

/-- From a state, the step keeps to the law, and its result and the new state are as stated. -/
def Keeps (law : Law) (x : Plan α) (s : PlanState) (post : α → PlanState → Prop) : Prop :=
  law.holds s → Ensures x s fun a s' => law.holds s' ∧ law.grows s s' ∧ post a s'

namespace Keeps

variable {law : Law} {e : Error} {x : Plan α} {post post' : α → PlanState → Prop} {f : α → Plan β}
  {a : α} {l : List α}

lemma mono (h : Keeps law x s post)
    (hp : ∀ a s', law.grows s s' → post a s' → post' a s') : Keeps law x s post' :=
  fun hs => (h hs).mono fun a s' ⟨ha, he, hpost⟩ => ⟨ha, he, hp a s' he hpost⟩

lemma forget (h : Keeps law x s post) : Keeps law x s fun _ _ => True :=
  h.mono fun _ _ _ _ => trivial

lemma bind {mid : α → PlanState → Prop} {post : β → PlanState → Prop} (hx : Keeps law x s mid)
    (hf : ∀ a s', law.grows s s' → mid a s' → Keeps law (f a) s' post) :
    Keeps law (x >>= f) s post := by
  intro hs
  refine (hx hs).bind fun a s' ⟨ha, he, hmid⟩ => ?_
  refine (hf a s' he hmid ha).mono fun b s'' ⟨hb, he', hpost⟩ => ?_
  exact ⟨hb, law.trans he he', hpost⟩

lemma and (h : Keeps law x s post)
    (h' : Ensures x s post') : Keeps law x s fun a s' => post a s' ∧ post' a s' := by
  intro hs a s' ha
  obtain ⟨hs', hg, hpost⟩ := h hs a s' ha
  exact ⟨hs', hg, hpost, h' a s' ha⟩

lemma with_run (h : Keeps law x s post) : Keeps law x s fun a s' => post a s' ∧ x s = .ok (a, s') :=
  h.and fun _ _ hx => hx

lemma of_holds (h : law.holds s → Keeps law x s post) : Keeps law x s post :=
  fun hs => h hs hs

lemma of_pure (h : post a s) : Keeps law (pure a) s post :=
  fun hs => Ensures.of_pure ⟨hs, law.refl s, h⟩

lemma of_lift {e : Except Error α} (h : ∀ a, e = .ok a → post a s) : Keeps law (liftM e) s post :=
  fun hs => Ensures.of_lift fun a ha => ⟨hs, law.refl s, h a ha⟩

lemma of_throw : Keeps law (throw e) s post :=
  fun _ => Ensures.of_throw

lemma of_run (hx : x s = .ok (a, s')) (hs' : law.holds s → law.holds s') (hg : law.grows s s')
    (h : post a s') : Keeps law x s post := by
  intro hs b t hb
  rw [hx] at hb
  cases hb
  exact ⟨hs' hs, hg, h⟩

lemma run_bind {post : β → PlanState → Prop} (hx : x s = .ok (a, s'))
    (hs' : law.holds s → law.holds s') (hg : law.grows s s')
    (h : Keeps law (f a) s' post) : Keeps law (x >>= f) s post := by
  have hfirst : Keeps law x s fun b t => b = a ∧ t = s' := of_run hx hs' hg ⟨rfl, rfl⟩
  refine hfirst.bind ?_
  rintro b t - ⟨rfl, rfl⟩
  exact h

lemma lift_bind {e : Except Error α} {post : β → PlanState → Prop}
    (h : ∀ a, e = .ok a → Keeps law (f a) s post) : Keeps law (liftM e >>= f) s post := by
  cases e with
  | error err => exact fun _ b t hb => by cases hb
  | ok a => exact run_bind rfl id (law.refl s) (h a rfl)

lemma throw_bind {post : β → PlanState → Prop} : Keeps law (throw e >>= f) s post :=
  fun _ b t hb => by cases hb

lemma get_bind {f : PlanState → Plan β} {post : β → PlanState → Prop}
    (h : Keeps law (f s) s post) : Keeps law (get >>= f) s post :=
  run_bind rfl id (law.refl s) h

/-- Steps for the elements of a list one after the other. What each of them brings about has to
last. -/
lemma mapM {R : α → β → PlanState → Prop} (hR : ∀ a b s s', law.grows s s' → R a b s → R a b s')
    (h : ∀ a ∈ l, ∀ s', law.grows s s' → Keeps law (f a) s' (R a)) :
    Keeps law (l.mapM f) s fun bs s' => List.Forall₂ (fun a b => R a b s') l bs := by
  induction l generalizing s with
  | nil => exact of_pure .nil
  | cons a rest ih =>
    rw [List.mapM_cons]
    refine (h a (by simp) s (law.refl s)).bind fun b s1 hg1 hb => ?_
    have hrest : Keeps law (rest.mapM f) s1 fun bs s' =>
        List.Forall₂ (fun a b => R a b s') rest bs :=
      ih fun c hc s' hg => h c (by simp [hc]) s' (law.trans hg1 hg)
    exact hrest.bind fun bs s2 hg2 hbs => of_pure (.cons (hR _ _ _ _ hg2 hb) hbs)

lemma forM {f : α → Plan PUnit} {P : α → PlanState → Prop}
    (hP : ∀ a s s', law.grows s s' → P a s → P a s')
    (h : ∀ a ∈ l, ∀ s', law.grows s s' → Keeps law (f a) s' fun _ => P a) :
    Keeps law (l.forM f) s fun _ s' => ∀ a ∈ l, P a s' := by
  rw [forM_eq_mapM]
  refine (mapM (fun a _ => hP a) h).bind fun bs s' _ hall => of_pure ?_
  exact ((List.forall₂_and_left (R := fun _ _ => True) l bs).mp
    (hall.imp fun _ _ ha => ⟨ha, trivial⟩)).1

end Keeps

/-- The law that says nothing of states. -/
def Law.free : Law := ⟨fun _ => True, fun _ _ => True, fun _ => trivial, fun _ _ => trivial⟩

lemma Ensures.keeps (h : Ensures x s post) : Keeps .free x s post :=
  fun _ a s' hx => ⟨trivial, trivial, h a s' hx⟩

lemma Keeps.ensures (h : Keeps .free x s post) : Ensures x s post :=
  fun a s' hx => (h trivial a s' hx).2.2

lemma Ensures.mapM {f : α → Plan β} {R : α → β → Prop} {l : List α}
    (h : ∀ a ∈ l, ∀ s, Ensures (f a) s fun b _ => R a b) :
    Ensures (l.mapM f) s fun bs _ => List.Forall₂ R l bs :=
  Keeps.ensures (.mapM (fun _ _ _ _ _ hb => hb) fun a ha s' _ => (h a ha s').keeps)

end Plan

/-- The stages stay as they are and so does what they are noted for, and names are made up. -/
structure PlanState.Steady (s s' : PlanState) : Prop where
  stages : s'.stages = s.stages := by rfl
  staged : s'.staged = s.staged := by rfl
  pages : s'.pages = s.pages := by rfl
  count : s'.names.stages = s.names.stages := by rfl
  relations : s.names.relations ≤ s'.names.relations := by simp

variable {m n : Nat} {a b letter : Char}

/-- The letters that made up names begin with: those of relations, lateral joins, aggregates,
unions, stages, walks and rows that are written out. -/
def generatedLetters : List Char := ['r', 'j', 'a', 'u', 't', 'c', 'v']

/-- Whether a name is `x`, or one of the letters and digits behind it. -/
def isGeneratedName (name : String) : Bool :=
  match name.toList with
  | [] => false
  | letter :: digits =>
    (letter == 'x' && digits.isEmpty) ||
      (generatedLetters.contains letter && !digits.isEmpty && digits.all Char.isDigit)

lemma isGeneratedName_x : isGeneratedName "x" = true := rfl

lemma toList_numberedName (letter : Char) (n : Nat) :
    (numberedName letter n).toList = letter :: decimalDigits n := by
  rw [numberedName, String.toList_ofList]

lemma decimalDigits_inj (h : decimalDigits m = decimalDigits n) : m = n := by
  have hm : Nat.ofDigitChars 10 (decimalDigits m) 0 = m := Nat.ofDigitChars_ten_toDigits
  have hn : Nat.ofDigitChars 10 (decimalDigits n) 0 = n := Nat.ofDigitChars_ten_toDigits
  rw [← hm, ← hn, h]

/-- The letter and the number of a made up name are told by the name. -/
lemma numberedName_inj : numberedName a m = numberedName b n ↔ a = b ∧ m = n := by
  constructor
  · intro h
    have hl := congrArg String.toList h
    rw [toList_numberedName, toList_numberedName, List.cons.injEq] at hl
    exact ⟨hl.1, decimalDigits_inj hl.2⟩
  · rintro ⟨rfl, rfl⟩
    rfl

lemma numberedName_ne (h : a ≠ b) (m n : Nat) : numberedName a m ≠ numberedName b n :=
  fun he => h (numberedName_inj.mp he).1

lemma isGeneratedName_numberedName (h : letter ∈ generatedLetters) (n : Nat) :
    isGeneratedName (numberedName letter n) = true := by
  have hne : (decimalDigits n).isEmpty = false := by
    rw [List.isEmpty_eq_false_iff]
    exact Nat.toDigits_ne_nil
  have hall : (decimalDigits n).all Char.isDigit = true := by
    rw [List.all_eq_true]
    exact fun c hc => Nat.isDigit_of_mem_toDigits (by decide) (by decide) hc
  rw [isGeneratedName, toList_numberedName]
  simp [h, hne, hall]

lemma ne_numberedName {name : String} (h : isGeneratedName name = false)
    (hl : letter ∈ generatedLetters) : name ≠ numberedName letter n := by
  rintro rfl
  rw [isGeneratedName_numberedName hl] at h
  exact absurd h (by decide)

end StagedSql
