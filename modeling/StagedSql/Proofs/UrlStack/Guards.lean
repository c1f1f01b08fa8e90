import Mathlib.Data.List.Infix
import Mathlib.Data.List.Nodup
import StagedSql.UrlStack

/-!
Guards and the URLs that they stand for.

A guard that is dropped takes the top URL off the stack, whichever guard that URL came with. So the
order in which guards are dropped matters (`pushed_urls_stay_iff_dropped_in_order`).
-/

namespace StagedSql

open List

namespace UrlStack

variable {g : Nat} {α : Type}

/-! ### What is done with a stack -/

/-- What is done with a stack: a URL is pushed, or a guard is dropped. Guards are counted from zero
in the order of the pushes. -/
inductive Act where
  | push (url : String)
  | drop (guard : Nat)

def act (s : UrlStack) : Act → UrlStack
  | .push url => s.push url
  | .drop g => s.drop g

/-- A stack that had the URLs `base`, after some acts. -/
def after (base : List String) (acts : List Act) : UrlStack := acts.foldl act ⟨base, [], 0⟩

/-- Guards, each with the URL that it was given for, the youngest first, and how many there have
been. -/
structure Holding where
  held : List (Nat × String)
  made : Nat

/-- One act: a guard that is dropped goes with its own URL. -/
def Holding.act (l : Holding) : Act → Holding
  | .push url => ⟨(l.made, url) :: l.held, l.made + 1⟩
  | .drop g => ⟨l.held.filter (·.1 != g), l.made⟩

/-- **The guards that are held** after some acts. -/
def holding (acts : List Act) : Holding := acts.foldl Holding.act ⟨[], 0⟩

/-- The URL that should be in use: that of the youngest guard that is held, and without guards the
first one of the base. -/
def Holding.current (l : Holding) (base : List String) : Except Error String :=
  match l.held, base with
  | (_, url) :: _, _ => .ok url
  | [], url :: _ => .ok url
  | [], [] => .error (.connection "no database url configured")

/-- **A stack is as its guards say**: their URLs, the youngest first, on top of the base. -/
def Matches (s : UrlStack) (l : Holding) (base : List String) : Prop :=
  s.urls = l.held.map Prod.snd ++ base ∧ s.current = l.current base

/-- **Guards are dropped in order**: when a guard is dropped, all younger ones that are still held
have the same URL. -/
def InOrder (acts : List Act) : Prop :=
  ∀ before g, before ++ [.drop g] <+: acts → ∀ url younger url', (g, url) ∈ (holding before).held →
      (younger, url') ∈ (holding before).held → g < younger → url' = url

variable {base : List String} {acts : List Act} {s : UrlStack} {l : Holding}

lemma after_concat (a : Act) : after base (acts ++ [a]) = (after base acts).act a := by
  rw [after, foldl_concat]
  rfl

lemma holding_concat (a : Act) : holding (acts ++ [a]) = (holding acts).act a := by
  rw [holding, foldl_concat]
  rfl

/-! ### The guards that are held -/

/-- The guards are numbered downwards, below the number of the next one. -/
structure Holding.Numbered (l : Holding) : Prop where
  below : ∀ p ∈ l.held, p.1 < l.made
  falling : l.held.Pairwise fun p q => q.1 < p.1

lemma Holding.Numbered.act (h : l.Numbered) (a : Act) : (l.act a).Numbered := by
  cases a with
  | push url =>
    exact ⟨forall_mem_cons.mpr ⟨Nat.lt_succ_self _, fun p hp => (h.below p hp).trans
      (Nat.lt_succ_self _)⟩, pairwise_cons.mpr ⟨h.below, h.falling⟩⟩
  | drop g =>
    exact ⟨fun p hp => h.below p (mem_of_mem_filter hp), h.falling.filter _⟩

lemma holding_numbered (acts : List Act) : (holding acts).Numbered := by
  induction acts using List.reverseRecOn with
  | nil => exact ⟨by simp [holding], .nil⟩
  | append_singleton acts a ih =>
    rw [holding_concat]
    exact ih.act a

lemma Holding.Numbered.nodup (h : l.Numbered) : (l.held.map Prod.fst).Nodup :=
  (pairwise_map.mpr h.falling).imp fun hlt => (ne_of_lt hlt).symm

/-- A guard that is held stands between the younger ones and the older ones. -/
lemma Holding.Numbered.exists_split (h : l.Numbered) {url : String}
    (hg : (g, url) ∈ l.held) : ∃ younger older, l.held = younger ++ (g, url) :: older ∧
      (l.act (.drop g)).held = younger ++ older ∧
      ∀ p, p ∈ younger ↔ p ∈ l.held ∧ g < p.1 := by
  obtain ⟨younger, older, hsplit⟩ := append_of_mem hg
  have hfalling := h.falling
  rw [hsplit, pairwise_append, pairwise_cons] at hfalling
  obtain ⟨-, ⟨holder, -⟩, hyounger⟩ := hfalling
  have habove : ∀ p ∈ younger, g < p.1 := fun p hp =>
    hyounger p hp _ mem_cons_self
  refine ⟨younger, older, hsplit, ?_, fun p => ⟨fun hp => ⟨by simp [hsplit, hp], habove p hp⟩, ?_⟩⟩
  · have hy : younger.filter (·.1 != g) = younger :=
      filter_eq_self.mpr fun p hp => by simpa using (habove p hp).ne'
    have ho : older.filter (·.1 != g) = older :=
      filter_eq_self.mpr fun p hp => by simpa using (holder p hp).ne
    rw [Holding.act, hsplit, filter_append, filter_cons_of_neg (by simp), hy, ho]
  · grind

/-! ### What always holds -/

/-- A stack has as many URLs as guards that are held, above the base. -/
structure Counts (s : UrlStack) (l : Holding) (base : List String) : Prop where
  held : s.held = l.held.map Prod.fst
  guards : s.guards = l.made
  base : ∃ top, s.urls = top ++ base ∧ top.length = l.held.length

lemma Counts.drop_held (h : s.Counts l base) (hg : g ∈ l.held.map Prod.fst) :
    s.act (.drop g) = ⟨s.urls.tail, s.held.erase g, s.guards⟩ :=
  if_pos (by simpa [h.held] using hg)

lemma Counts.drop_unheld (h : s.Counts l base) (hg : g ∉ l.held.map Prod.fst) :
    s.act (.drop g) = s ∧ l.act (.drop g) = l := by
  have hself : l.held.filter (·.1 != g) = l.held :=
    filter_eq_self.mpr fun p hp => by
      grind
  exact ⟨if_neg (by simpa [h.held] using hg), by rw [Holding.act, hself]⟩

lemma Counts.act (h : s.Counts l base) (hl : l.Numbered) (a : Act) :
    (s.act a).Counts (l.act a) base := by
  obtain ⟨top, htop, hlen⟩ := h.base
  cases a with
  | push url =>
    refine ⟨?_, ?_, url :: top, ?_, ?_⟩
    · simp [UrlStack.act, push, Holding.act, h.held, h.guards]
    · simp [UrlStack.act, push, Holding.act, h.guards]
    · simp [UrlStack.act, push, htop]
    · simp [Holding.act, hlen]
  | drop g =>
    by_cases hg : g ∈ l.held.map Prod.fst
    · rw [h.drop_held hg]
      obtain ⟨p, hp, rfl⟩ := mem_map.mp hg
      obtain ⟨younger, older, hsplit, hrest, -⟩ := hl.exists_split hp
      refine ⟨?_, h.guards, top.tail, ?_, ?_⟩
      · rw [h.held, hl.nodup.erase_eq_filter, filter_map]
        rfl
      · grind
      · rw [length_tail, hlen, hrest, hsplit]
        simp
    · obtain ⟨hs, hkeep⟩ := h.drop_unheld hg
      rwa [hs, hkeep]

/-- **Every stack has its count of URLs**, whatever was done. -/
lemma after_counts (base : List String) (acts : List Act) :
    (after base acts).Counts (holding acts) base := by
  induction acts using List.reverseRecOn with
  | nil => exact ⟨rfl, rfl, [], rfl, rfl⟩
  | append_singleton acts a ih =>
    rw [after_concat, holding_concat]
    exact ih.act (holding_numbered acts) a

/-! ### What holds if guards are dropped in order -/

/-- An element in front of a list gives the same list as one inside, if all before are equal. -/
lemma append_cons_eq_cons_append {a b : List α} {x y : α} :
    a ++ x :: b = y :: (a ++ b) ↔ y = x ∧ ∀ z ∈ a, z = x := by
  induction a generalizing y with
  | nil => simp [eq_comm]
  | cons z a ih =>
    rw [cons_append, cons_append, List.cons.injEq, ih, forall_mem_cons]
    grind

/-- To take the first element off a list is to take one out from inside, exactly if all in front of
it are equal to it. -/
lemma tail_append_cons {a b : List α} {x : α} : (a ++ x :: b).tail = a ++ b ↔ ∀ y ∈ a, y = x := by
  cases a with
  | nil => simp
  | cons y a =>
    rw [cons_append, tail_cons, cons_append, append_cons_eq_cons_append, forall_mem_cons]

lemma matches_iff : s.Matches l base ↔ s.urls = l.held.map Prod.snd ++ base := by
  refine ⟨And.left, fun h => ⟨h, ?_⟩⟩
  rw [current, h]
  obtain ⟨held, made⟩ := l
  cases held with
  | nil => cases base <;> rfl
  | cons p rest => rfl

lemma Matches.push (h : s.Matches l base) (url : String) :
    (s.act (.push url)).Matches (l.act (.push url)) base := by
  rw [matches_iff] at h ⊢
  simp [UrlStack.act, UrlStack.push, Holding.act, h]

/-- **A drop keeps a stack as its guards say exactly if all younger guards have the same URL.** -/
lemma Matches.drop_iff (h : s.Matches l base) (hc : s.Counts l base) (hl : l.Numbered) (g : Nat) :
    (s.act (.drop g)).Matches (l.act (.drop g)) base ↔
      ∀ url younger url', (g, url) ∈ l.held → (younger, url') ∈ l.held → g < younger →
        url' = url := by
  rw [matches_iff] at h ⊢
  by_cases hg : g ∈ l.held.map Prod.fst
  · obtain ⟨⟨g, url⟩, hp, rfl⟩ := mem_map.mp hg
    obtain ⟨younger, older, hsplit, hrest, hyounger⟩ := hl.exists_split hp
    have htail : s.urls.tail = (l.act (.drop g)).held.map Prod.snd ++ base ↔
        ∀ url' ∈ younger.map Prod.snd, url' = url := by
      rw [h, hrest, hsplit, map_append, map_append, map_cons, append_assoc,
        append_assoc, cons_append, tail_append_cons]
    rw [hc.drop_held hg, htail, forall_mem_map]
    constructor
    · intro hall url' younger' url'' hurl' hurl'' hlt
      have heq : url' = url := by
        have hunique := inj_on_of_nodup_map hl.nodup hurl' hp rfl
        exact congrArg Prod.snd hunique
      rw [heq]
      exact hall _ ((hyounger _).mpr ⟨hurl'', hlt⟩)
    · grind
  · obtain ⟨hs, hkeep⟩ := hc.drop_unheld hg
    simp_all

/-- Guards are dropped in order up to an act, and the act keeps the order. -/
lemma inOrder_concat (a : Act) : InOrder (acts ++ [a]) ↔ InOrder acts ∧
    ∀ g, a = .drop g → ∀ url younger url', (g, url) ∈ (holding acts).held →
      (younger, url') ∈ (holding acts).held → g < younger → url' = url := by
  constructor
  · intro h
    refine ⟨fun before g hp => h before g (hp.trans (prefix_append _ _)), ?_⟩
    rintro g rfl
    exact h acts g prefix_rfl
  · rintro ⟨h, hlast⟩ before g hp
    rcases prefix_concat_iff.mp hp with heq | hp
    · obtain ⟨rfl, hdrop⟩ := append_inj' heq rfl
      cases hdrop
      exact hlast g rfl
    · exact h before g hp

/-- **The stack is always as the guards say exactly if guards are dropped in order.** By induction
on the acts, the last one first. -/
lemma matches_iff_inOrder (base : List String) (acts : List Act) :
    (∀ before, before <+: acts → (after base before).Matches (holding before) base) ↔
      InOrder acts := by
  induction acts using List.reverseRecOn with
  | nil =>
    refine ⟨fun _ before g hp => ?_, fun _ before hp => ?_⟩
    · simp at hp
    · rw [prefix_nil.mp hp]
      exact matches_iff.mpr rfl
  | append_singleton acts a ih =>
    have hsplit : (∀ before, before <+: acts ++ [a] →
        (after base before).Matches (holding before) base) ↔
        (∀ before, before <+: acts → (after base before).Matches (holding before) base) ∧
          ((after base acts).act a).Matches ((holding acts).act a) base := by
      simp only [prefix_concat_iff, forall_eq_or_imp, after_concat, holding_concat, and_comm]
    rw [hsplit, ih, inOrder_concat]
    refine and_congr_right fun hacts => ?_
    have hmatch : (after base acts).Matches (holding acts) base :=
      ih.mpr hacts acts prefix_rfl
    cases a with
    | push url => simp [hmatch.push url]
    | drop g =>
      rw [hmatch.drop_iff (after_counts base acts) (holding_numbered acts) g]
      simp

end UrlStack

/-- **A URL is in use until its own guard is dropped, exactly if guards are dropped in order.**
Whatever URLs are pushed and whatever guards are dropped, the URLs of the base stay, under one URL
for each guard that is held. These are the URLs of those guards, and the one in use is that of the
youngest, at all times if and only if no guard is ever dropped while a younger one with another URL
is held. -/
theorem pushed_urls_stay_iff_dropped_in_order (base : List String) (acts : List UrlStack.Act) :
    (∃ top, (UrlStack.after base acts).urls = top ++ base ∧
      top.length = (UrlStack.holding acts).held.length) ∧
    ((∀ before, before <+: acts →
      (UrlStack.after base before).Matches (UrlStack.holding before) base) ↔
        UrlStack.InOrder acts) :=
  ⟨(UrlStack.after_counts base acts).base, UrlStack.matches_iff_inOrder base acts⟩

/-- **A guard that is dropped too early takes the URL of a younger one.** -/
theorem early_drop_takes_younger_url :
    (UrlStack.holding [.push "b", .push "c", .drop 0]).current ["a"] = .ok "c" ∧
      (UrlStack.after ["a"] [.push "b", .push "c", .drop 0]).current = .ok "b" :=
  ⟨rfl, rfl⟩

end StagedSql
