import Mathlib.Data.List.TakeDrop
import Mathlib.Data.List.TakeWhile
import StagedSql.Proofs.Schema.Accepted
import StagedSql.Session

/-!
The languages of the names that are written without quotes: what the checks of dotted names and of
types accept (`isDottedName_iff`, `isTypeName_iff`), and so what schemas and sessions hold
(`accepted_names`).
-/

namespace StagedSql

open List

variable {c sep : Char} {cs rest : List Char} {s : String}

/-! ### Runs and segments -/

lemma run_append {p : Char → Bool} (hcs : ∀ c ∈ cs, p c = true)
    (hrest : ∀ c ∈ rest.head?, p c = false) :
    (cs ++ rest).takeWhile p = cs ∧ (cs ++ rest).dropWhile p = rest := by
  rw [takeWhile_append_of_pos hcs, dropWhile_append_of_pos hcs]
  cases rest with
  | nil => simp
  | cons c rest => simp [hrest c rfl]

lemma exists_run (p : Char → Bool) (cs : List Char) :
    ∃ run rest, cs.takeWhile p = run ∧ cs.dropWhile p = rest ∧ run ++ rest = cs ∧
      (∀ c ∈ run, p c = true) ∧ ∀ c ∈ rest.head?, p c = false := by
  refine ⟨_, _, rfl, rfl, takeWhile_append_dropWhile, fun _ => mem_takeWhile_imp, fun c hc => ?_⟩
  have hhead := head?_dropWhile_not p cs
  rwa [Option.mem_def.mp hc] at hhead

lemma exists_cons_splitAtChar (sep : Char) (cs : List Char) :
    ∃ segment rest, splitAtChar sep cs = segment :: rest := by
  induction cs with
  | nil => exact ⟨[], [], rfl⟩
  | cons c cs ih =>
    obtain ⟨segment, rest, h⟩ := ih
    by_cases hc : c = sep
    · exact ⟨[], splitAtChar sep cs, if_pos hc⟩
    · exact ⟨c :: segment, rest, by rw [splitAtChar, if_neg hc, h, consSegment]⟩

/-- The segments of a text hold no separator, and are the text with the separator between them. -/
lemma splitAtChar_eq_cons {first : List Char} {rest : List (List Char)} :
    splitAtChar sep cs = first :: rest ↔
      cs = first ++ rest.flatMap (sep :: ·) ∧ sep ∉ first ∧ ∀ w ∈ rest, sep ∉ w := by
  induction cs generalizing first rest with
  | nil => cases first <;> cases rest <;> simp [splitAtChar]
  | cons c cs ih =>
    obtain ⟨segment, others, h⟩ := exists_cons_splitAtChar sep cs
    rw [splitAtChar]
    by_cases hc : c = sep
    · rw [if_pos hc]
      cases first with
      | nil => cases rest <;> simp_all
      | cons d first => grind
    · rw [if_neg hc, h, consSegment]
      rw [h] at ih
      cases first with
      | nil => cases rest <;> simp_all
      | cons d first =>
        have hrest := @ih first rest
        grind

lemma mem_of_mem_splitAtChar {segment : List Char} (h : segment ∈ splitAtChar sep cs)
    (hc : c ∈ segment) : c ∈ cs ∧ c ≠ sep := by
  obtain ⟨first, rest, hsplit⟩ := exists_cons_splitAtChar sep cs
  obtain ⟨hcs, hfirst, hrest⟩ := splitAtChar_eq_cons.mp hsplit
  rw [hsplit] at h
  grind

/-! ### Dotted names -/

lemma isNameChar_of_isNameStart (h : isNameStart c = true) : isNameChar c = true := by
  simp only [isNameStart, Bool.or_eq_true] at h
  rcases h with h | h <;> simp [isNameChar, Char.isAlphanum, h]

lemma isNameChar_of_isWord (h : isWord cs = true) (hc : c ∈ cs) : isNameChar c = true := by
  cases cs with
  | nil => cases hc
  | cons d cs =>
    simp only [isWord, Bool.and_eq_true, all_eq_true] at h
    rcases mem_cons.mp hc with rfl | hc
    · exact isNameChar_of_isNameStart h.1
    · exact h.2 c hc

lemma isNameChar_of_isTypeHead (h : isTypeHead cs = true) (hc : c ∈ cs) :
    isNameChar c = true ∨ c = '.' := by
  cases cs with
  | nil => cases hc
  | cons d cs =>
    simp only [isTypeHead, Bool.and_eq_true, all_eq_true, Bool.or_eq_true, beq_iff_eq] at h
    rcases mem_cons.mp hc with rfl | hc
    · exact .inl (isNameChar_of_isNameStart h.1)
    · exact h.2 c hc

/-- **Dotted names** are words with dots between them. -/
lemma isDottedName_iff : isDottedName s = true ↔ ∃ first rest,
    (∀ w ∈ first :: rest, isWord w = true) ∧ s.toList = first ++ rest.flatMap ('.' :: ·) := by
  rw [isDottedName, all_eq_true]
  constructor
  · intro h
    obtain ⟨first, rest, hsplit⟩ := exists_cons_splitAtChar '.' s.toList
    exact ⟨first, rest, hsplit ▸ h, (splitAtChar_eq_cons.mp hsplit).1⟩
  · rintro ⟨first, rest, h, hs⟩
    have hdot : ∀ w ∈ first :: rest, '.' ∉ w := fun w hw hmem =>
      absurd (isNameChar_of_isWord (h w hw) hmem) (by decide)
    rwa [splitAtChar_eq_cons.mpr ⟨hs, forall_mem_cons.mp hdot⟩]

/-! ### Types -/

/-- What may stand in the parentheses of a type: a number, or two with a comma and at most one
blank between them. -/
inductive WritesPrecision : List Char → Prop
  | one {n : List Char} : isDigits n = true → WritesPrecision n
  | two {n m : List Char} (gap : List Char) : isDigits n = true → isDigits m = true →
      gap = [] ∨ gap = [' '] → WritesPrecision (n ++ ',' :: (gap ++ m))

/-- Pairs of brackets. -/
def brackets (k : Nat) : List Char := (replicate k ['[', ']']).flatten

/-- What may stand behind the words of a type: a precision in parentheses or none, then any number
of pairs of brackets. -/
inductive WritesSuffix : List Char → Prop
  | plain (k : Nat) : WritesSuffix (brackets k)
  | precise {p : List Char} (k : Nat) : WritesPrecision p →
      WritesSuffix ('(' :: (p ++ ')' :: brackets k))

/-- **The types**: words with single blanks between them, of which the first may hold dots, and what
stands behind them. -/
def WritesType (cs : List Char) : Prop :=
  ∃ (first : List Char) (rest : List (List Char)) (suffix : List Char), isTypeHead first = true ∧
    (∀ w ∈ rest, isWord w = true) ∧ WritesSuffix suffix ∧
      cs = first ++ rest.flatMap (' ' :: ·) ++ suffix

lemma dropBlank_cases (cs : List Char) : cs = dropBlank cs ∨ cs = ' ' :: dropBlank cs := by
  unfold dropBlank
  split
  · exact .inr rfl
  · exact .inl rfl

lemma dropBlank_of_isDigits (h : isDigits cs = true) : dropBlank cs = cs := by
  rcases dropBlank_cases cs with he | he
  · exact he.symm
  · rw [he] at h
    tauto

lemma isDecimalDigit_of_isDigits (h : isDigits cs = true) :
    ∀ c ∈ cs, isDecimalDigit c = true := by
  rw [isDigits, Bool.and_eq_true, all_eq_true] at h
  exact h.2

lemma WritesPrecision.chars (h : WritesPrecision cs) :
    ∀ c ∈ cs, isDecimalDigit c = true ∨ c ∈ [',', ' '] := by
  cases h with
  | one hn => exact fun c hc => .inl (isDecimalDigit_of_isDigits hn c hc)
  | two gap hn hm hgap =>
    have hn' := isDecimalDigit_of_isDigits hn
    have hm' := isDecimalDigit_of_isDigits hm
    grind

lemma isPrecision_iff : isPrecision cs = true ↔ WritesPrecision cs := by
  have hcomma : ∀ n, isDigits n = true → ',' ∉ n := fun n hn hmem =>
    absurd (isDecimalDigit_of_isDigits hn _ hmem) (by decide)
  constructor
  · intro h
    unfold isPrecision at h
    split at h
    · rename_i n hsplit
      obtain ⟨rfl, -⟩ := splitAtChar_eq_cons.mp hsplit
      exact .one (by simpa using h)
    · rename_i n m hsplit
      obtain ⟨rfl, -⟩ := splitAtChar_eq_cons.mp hsplit
      rw [Bool.and_eq_true] at h
      rw [flatMap_singleton]
      rcases dropBlank_cases m with hm | hm
      · rw [hm]
        exact .two [] h.1 h.2 (.inl rfl)
      · rw [hm]
        exact .two [' '] h.1 h.2 (.inr rfl)
    · cases h
  · rintro (hn | ⟨gap, hn, hm, hgap⟩)
    · have hsplit : splitAtChar ',' cs = [cs] :=
        splitAtChar_eq_cons.mpr ⟨by simp, hcomma _ hn, by simp⟩
      simp [isPrecision, hsplit, hn]
    · rename_i n m
      have hgapped : ',' ∉ gap ++ m ∧ dropBlank (gap ++ m) = m := by
        have hm' := hcomma _ hm
        rcases hgap with rfl | rfl
        · exact ⟨hm', dropBlank_of_isDigits hm⟩
        · exact ⟨by simpa using hm', rfl⟩
      have hsplit : splitAtChar ',' (n ++ ',' :: (gap ++ m)) = [n, gap ++ m] :=
        splitAtChar_eq_cons.mpr ⟨by simp, hcomma _ hn, by simpa using hgapped.1⟩
      simp [isPrecision, hsplit, hgapped.2, hn, hm]

lemma isArraySuffix_brackets (k : Nat) : isArraySuffix (brackets k) = true := by
  induction k with
  | zero => rfl
  | succ k ih => exact ih

lemma eq_brackets (h : isArraySuffix cs = true) : ∃ k, cs = brackets k := by
  fun_induction isArraySuffix cs with
  | case1 => exact ⟨0, rfl⟩
  | case2 cs ih =>
    obtain ⟨k, rfl⟩ := ih h
    exact ⟨k + 1, rfl⟩
  | case3 => cases h

lemma WritesPrecision.span (h : WritesPrecision cs) (rest : List Char) :
    (cs ++ ')' :: rest).takeWhile (· != ')') = cs ∧
      (cs ++ ')' :: rest).dropWhile (· != ')') = ')' :: rest := by
  refine run_append (fun c hc => ?_) (by simp)
  have hclass := h.chars c hc
  rw [bne_iff_ne]
  rintro rfl
  revert hclass
  decide

lemma isTypeSuffix_iff : isTypeSuffix cs = true ↔ WritesSuffix cs := by
  constructor
  · intro h
    unfold isTypeSuffix at h
    split at h
    · rename_i cs
      obtain ⟨p, behind, htake, hdrop, rfl, -, hhead⟩ := exists_run (· != ')') cs
      rw [span_eq_takeWhile_dropWhile, htake, hdrop] at h
      cases behind with
      | nil => cases h
      | cons c rest =>
        obtain rfl : c = ')' := by simpa using hhead c rfl
        rw [Bool.and_eq_true] at h
        obtain ⟨k, rfl⟩ := eq_brackets h.2
        exact .precise k (isPrecision_iff.mp h.1)
    · obtain ⟨k, rfl⟩ := eq_brackets h
      exact .plain k
  · rintro (k | ⟨k, hp⟩)
    · cases k with
      | zero => rfl
      | succ k => exact isArraySuffix_brackets k
    · obtain ⟨htake, hdrop⟩ := hp.span (brackets k)
      rw [isTypeSuffix, span_eq_takeWhile_dropWhile, htake, hdrop, Bool.and_eq_true]
      exact ⟨isPrecision_iff.mpr hp, isArraySuffix_brackets k⟩

lemma words_chars {first : List Char} {rest : List (List Char)} (hfirst : isTypeHead first = true)
    (hrest : ∀ w ∈ rest, isWord w = true) :
    ∀ c ∈ first ++ rest.flatMap (' ' :: ·), isNameChar c = true ∨ c ∈ ['.', ' '] := by
  intro c hc
  simp only [mem_append, mem_flatMap, mem_cons] at hc
  rcases hc with hc | ⟨w, hw, rfl | hc⟩
  · exact (isNameChar_of_isTypeHead hfirst hc).imp_right fun h => by simp [h]
  · exact .inr (by simp)
  · exact .inl (isNameChar_of_isWord (hrest w hw) hc)

/-- **The check of a type** accepts the language of types. -/
lemma isTypeName_iff : isTypeName s = true ↔ WritesType s.toList := by
  rw [isTypeName, span_eq_takeWhile_dropWhile, Bool.and_eq_true, isTypeSuffix_iff]
  constructor
  · rintro ⟨hwords, hsuffix⟩
    obtain ⟨first, rest, hsplit⟩ := exists_cons_splitAtChar ' '
      (s.toList.takeWhile fun c => c != '(' && c != '[')
    rw [hsplit, isTypeWords, Bool.and_eq_true, all_eq_true] at hwords
    refine ⟨first, rest, _, hwords.1, hwords.2, hsuffix, ?_⟩
    rw [← (splitAtChar_eq_cons.mp hsplit).1, takeWhile_append_dropWhile]
  · rintro ⟨first, rest, suffix, hfirst, hrest, hsuffix, hs⟩
    have hwords := words_chars hfirst hrest
    have hopen : ∀ c ∈ first ++ rest.flatMap (' ' :: ·), (c != '(' && c != '[') = true := by
      intro c hc
      have hclass := hwords c hc
      rw [Bool.and_eq_true, bne_iff_ne, bne_iff_ne]
      constructor <;> rintro rfl <;> revert hclass <;> decide
    have hhead : ∀ c ∈ suffix.head?, (c != '(' && c != '[') = false := by
      cases hsuffix with
      | plain k => cases k <;> simp [brackets, replicate_succ]
      | precise k hp => simp
    obtain ⟨htake, hdrop⟩ := run_append hopen hhead
    have hblank : ' ' ∉ first ∧ ∀ w ∈ rest, ' ' ∉ w := by
      refine ⟨fun h => ?_, fun w hw h => ?_⟩
      · exact absurd (isNameChar_of_isTypeHead hfirst h) (by decide)
      · exact absurd (isNameChar_of_isWord (hrest w hw) h) (by decide)
    have hsplit : splitAtChar ' ' (first ++ rest.flatMap (' ' :: ·)) = first :: rest :=
      splitAtChar_eq_cons.mpr ⟨rfl, hblank⟩
    rw [hs, htake, hdrop, hsplit, isTypeWords, Bool.and_eq_true, all_eq_true]
    exact ⟨⟨hfirst, hrest⟩, hsuffix⟩

/-- A character of types other than a parenthesis. -/
def isTypePart (c : Char) : Bool :=
  isNameChar c || isDecimalDigit c || ['.', ' ', ',', '[', ']'].contains c

/-- **A type has one pair of parentheses or none**, and nothing else that would end it. -/
lemma WritesType.filter (h : WritesType cs) :
    (cs.filter fun c => !isTypePart c) ∈ [[], ['(', ')']] := by
  have hnil : ∀ l : List Char, (∀ c ∈ l, isTypePart c = true) →
      (l.filter fun c => !isTypePart c) = [] := by
    intro l hl
    simpa using hl
  have hbrackets : ∀ k, (brackets k).filter (fun c => !isTypePart c) = [] := by
    intro k
    induction k with
    | zero => rfl
    | succ k ih => exact ih
  obtain ⟨first, rest, suffix, hfirst, hrest, hsuffix, rfl⟩ := h
  have hwords := words_chars hfirst hrest
  rw [filter_append, hnil _ fun c hc => by grind [isTypePart]]
  cases hsuffix with
  | plain k => simp [hbrackets k]
  | precise k hp =>
    have hchars := hp.chars
    rw [nil_append, filter_cons_of_pos rfl, filter_append, filter_cons_of_pos rfl, hbrackets,
      hnil _ fun c hc => by grind [isTypePart]]
    decide

/-! ### Sessions -/

namespace Session

lemma variableSetting_eq_ok {name : String} {value : Value} {setting : Statement} :
    variableSetting name value = .ok setting ↔ (isDottedName name = true ∧ isScalar value = true) ∧
        setting = .setLocal (.var name value) := by
  rw [variableSetting]
  grind

lemma roleSetting_eq_ok {role : Option String} {settings : List Statement} :
    roleSetting role = .ok settings ↔ (∀ name ∈ role, name ≠ "") ∧
      settings = role.toList.map fun name => .setLocal (.role name) := by
  cases role with
  | none => grind [roleSetting]
  | some name =>
    rw [roleSetting]
    grind [String.isEmpty_iff]

/-- **The settings of a session** whose role has a name and whose variables have dotted names and
values that are neither arrays nor documents. -/
lemma settings_eq_ok {session : Session} {settings : List Statement} :
    session.settings = .ok settings ↔ ((∀ role ∈ session.role, role ≠ "") ∧
      ∀ var ∈ session.vars, isDottedName var.1 = true ∧ isScalar var.2 = true) ∧
        settings = session.role.toList.map (fun role => .setLocal (.role role)) ++
          session.vars.map fun var => .setLocal (.var var.1 var.2) := by
  have hvars : ∀ {vars settings}, List.mapM (fun var : String × Value =>
      variableSetting var.1 var.2) vars = .ok settings ↔
        (∀ var ∈ vars, isDottedName var.1 = true ∧ isScalar var.2 = true) ∧
          settings = vars.map fun var => .setLocal (.var var.1 var.2) := by
    intro vars
    induction vars with
    | nil => exact fun {_} => ⟨fun h => by cases h; simp, fun h => by rw [h.2]; rfl⟩
    | cons var vars ih =>
      intro settings
      rw [mapM_cons, forall_mem_cons]
      constructor
      · intro h
        obtain ⟨_, hvar, h⟩ := Except.bind_ok h
        obtain ⟨_, hvars, h⟩ := Except.bind_ok h
        obtain ⟨hname, rfl⟩ := variableSetting_eq_ok.mp hvar
        obtain ⟨hrest, rfl⟩ := ih.mp hvars
        cases h
        exact ⟨⟨hname, hrest⟩, rfl⟩
      · rintro ⟨⟨hname, hrest⟩, rfl⟩
        rw [variableSetting_eq_ok.mpr ⟨hname, rfl⟩, ih.mpr ⟨hrest, rfl⟩]
        rfl
  constructor
  · intro h
    obtain ⟨_, hrole, h⟩ := Except.bind_ok h
    obtain ⟨_, hrest, h⟩ := Except.bind_ok h
    obtain ⟨hname, rfl⟩ := roleSetting_eq_ok.mp hrole
    obtain ⟨hnames, rfl⟩ := hvars.mp hrest
    cases h
    exact ⟨⟨hname, hnames⟩, rfl⟩
  · rintro ⟨⟨hname, hnames⟩, rfl⟩
    rw [settings, roleSetting_eq_ok.mpr ⟨hname, rfl⟩, hvars.mpr ⟨hnames, rfl⟩]
    rfl

end Session

/-- **The names that are written without quotes** belong to their languages. A schema is accepted
exactly if its relations fit together and each declared type is of the language of types, a session
exactly if each variable has a name of words joined by dots, and no type holds a character that
would end it. -/
theorem accepted_names :
    (∀ id relations, (∃ schema, Schema.ofRelations id relations = .ok schema) ↔
      (relations.map (·.name)).Nodup ∧ ∀ r ∈ relations, (r.columns.map (·.name)).Nodup ∧
        (∀ c ∈ r.columns, ∀ t ∈ c.type?, WritesType t.toList) ∧ Schema.checkPrimaryKey r = .ok () ∧
            ∀ c ∈ r.columns, Schema.checkLink ⟨id, relations⟩ r c = .ok ()) ∧
    (∀ (session : Session) statement, (∃ wrapped, session.wrap statement = .ok wrapped) ↔
      (∀ role ∈ session.role, role ≠ "") ∧ ∀ var ∈ session.vars,
        (∃ first rest, (∀ w ∈ first :: rest, isWord w = true) ∧
          var.1.toList = first ++ rest.flatMap ('.' :: ·)) ∧ Session.isScalar var.2 = true) ∧
    ∀ cs, WritesType cs → (∀ c ∈ ['"', '\'', ';', '-', '/', '*'], c ∉ cs) ∧
      (cs.filter fun c => !isTypePart c) ∈ [[], ['(', ')']] := by
  refine ⟨fun id relations => ?_, fun session statement => ?_, fun cs hcs => ?_⟩
  · simp only [Schema.ofRelations_eq_ok, exists_eq_left, Schema.checkRelation_eq_ok,
      Schema.checkColumns_eq_ok, isTypeName_iff, not_mem_nil, not_false_eq_true, implies_true,
      true_and, and_assoc]
  · simp only [← isDottedName_iff]
    rw [Session.wrap]
    by_cases hempty : session.isEmpty = true
    · rw [Session.isEmpty, Bool.and_eq_true, Option.isNone_iff_eq_none, List.isEmpty_iff] at hempty
      simp [hempty, Session.isEmpty, pure, Except.pure]
    · rw [if_neg hempty]
      constructor
      · rintro ⟨_, h⟩
        obtain ⟨_, hsettings, -⟩ := Except.bind_ok h
        exact (Session.settings_eq_ok.mp hsettings).1
      · intro h
        rw [Session.settings_eq_ok.mpr ⟨h, rfl⟩]
        exact ⟨_, rfl⟩
  · refine ⟨fun c hc hmem => ?_, hcs.filter⟩
    have hout : isTypePart c = false ∧ c ∉ ['(', ')'] := by
      simp only [mem_cons, not_mem_nil, or_false] at hc
      rcases hc with rfl | rfl | rfl | rfl | rfl | rfl <;> decide
    have hfilter : c ∈ cs.filter fun c => !isTypePart c := by simp [hmem, hout]
    have hparens := hcs.filter
    grind

/-- A type with a precision and brackets. -/
theorem accepted_names_numeric :
    WritesType "numeric(10, 2)[]".toList ∧ ';' ∉ "numeric(10, 2)[]".toList := by
  have htype : WritesType "numeric(10, 2)[]".toList :=
    ⟨"numeric".toList, [], "(10, 2)[]".toList, by decide, by simp,
      .precise 1 (.two (n := ['1', '0']) (m := ['2']) [' '] (by decide) (by decide) (.inr rfl)),
      rfl⟩
  exact ⟨htype, (accepted_names.2.2 _ htype).1 ';' (by simp)⟩

end StagedSql
