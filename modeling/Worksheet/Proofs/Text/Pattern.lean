import Mathlib.Data.List.Basic

/-!
# Ordered patterns

A pattern says which texts match it, and which match at the front of a text comes first: that of the
first alternative, with as many characters of a class as there are. `rests` lists what the matches
leave of the text, in the order in which they are tried, so the first of the list is the one that a
search from the left takes.

* `mem_rests_iff`: the list has all matches, and no others.
* `head?_runs`, `mem_runs_cases`: of a run of characters, all are taken first.
* `rests_seq_many`: what cannot start with such a character goes on after all of them.
* `Greedy.longest`: where no match is longer than the first, the first is the longest.
-/

namespace Worksheet.Text

/-- A pattern of characters. -/
inductive Pattern where
  /-- One character of a class. -/
  | one (p : Char → Bool)
  /-- Any number of characters of a class; more of them come first. -/
  | many (p : Char → Bool)
  | seq (first second : Pattern)
  /-- Either of two patterns; the matches of the first come first. -/
  | alt (first second : Pattern)
  /-- The pattern or nothing; nothing comes last. -/
  | opt (pattern : Pattern)

namespace Pattern

/-- One character of a class or more. -/
def run (p : Char → Bool) : Pattern := .seq (.one p) (.many p)

/-- The texts that match a pattern from their start to their end. -/
def Matches : Pattern → List Char → Prop
  | .one p, text => ∃ c, p c = true ∧ text = [c]
  | .many p, text => ∀ c ∈ text, p c = true
  | .seq first second, text =>
    ∃ start more, first.Matches start ∧ second.Matches more ∧ text = start ++ more
  | .alt first second, text => first.Matches text ∨ second.Matches text
  | .opt pattern, text => pattern.Matches text ∨ text = []

/-- What is left after characters of a class at the front; more of them come first. -/
def runs (p : Char → Bool) : List Char → List (List Char)
  | [] => [[]]
  | c :: cs => if p c then runs p cs ++ [c :: cs] else [c :: cs]

/-- What the matches at the front of a text leave of it, in the order in which they are tried. -/
def rests : Pattern → List Char → List (List Char)
  | .one _, [] => []
  | .one p, c :: cs => if p c then [cs] else []
  | .many p, cs => runs p cs
  | .seq first second, cs => (first.rests cs).flatMap second.rests
  | .alt first second, cs => first.rests cs ++ second.rests cs
  | .opt pattern, cs => pattern.rests cs ++ [cs]

/-- What the match that comes first leaves. -/
def first? (pattern : Pattern) (cs : List Char) : Option (List Char) := (pattern.rests cs).head?

/-- A text that starts with a match. -/
def Starts (pattern : Pattern) (cs : List Char) : Prop :=
  ∃ text, pattern.Matches text ∧ text <+: cs

/-- Of a text and what comes after it: the text matches, and no longer start of the two does. -/
def Longest (pattern : Pattern) (text rest : List Char) : Prop :=
  pattern.Matches text ∧
    ∀ other, pattern.Matches other → other <+: text ++ rest → other.length ≤ text.length

/-- No match starts at a position of the text, with `rest` after it. -/
def Absent (pattern : Pattern) (text rest : List Char) : Prop :=
  ∀ skipped more, text = skipped ++ more → more ≠ [] → ¬ pattern.Starts (more ++ rest)

/-- Of the matches at the front of a text, the one that comes first is the longest. -/
def Greedy (pattern : Pattern) (cs : List Char) : Prop :=
  ∀ rest ∈ pattern.rests cs, ∃ first, pattern.first? cs = some first ∧ first.length ≤ rest.length

variable {p : Char → Bool} {cs rest : List Char} {pattern other : Pattern}

/-! ## All matches -/

theorem mem_runs_iff :
    rest ∈ runs p cs ↔ ∃ taken, (∀ c ∈ taken, p c = true) ∧ cs = taken ++ rest := by
  induction cs with
  | nil =>
    rw [runs, List.mem_singleton]
    constructor
    · rintro rfl
      exact ⟨[], List.forall_mem_nil _, rfl⟩
    · rintro ⟨taken, -, heq⟩
      exact (List.append_eq_nil_iff.mp heq.symm).2
  | cons c cs ih =>
    have hnone : rest = c :: cs →
        ∃ taken, (∀ d ∈ taken, p d = true) ∧ c :: cs = taken ++ rest := by
      rintro rfl
      exact ⟨[], List.forall_mem_nil _, rfl⟩
    have hcases : ∀ taken, c :: cs = taken ++ rest →
        taken = [] ∧ rest = c :: cs ∨ ∃ more, taken = c :: more ∧ cs = more ++ rest := by
      intro taken heq
      rcases List.append_eq_cons_iff.mp heq.symm with ⟨rfl, rfl⟩ | ⟨more, rfl, rfl⟩
      · exact Or.inl ⟨rfl, rfl⟩
      · exact Or.inr ⟨more, rfl, rfl⟩
    rw [runs]
    split
    · rename_i hc
      rw [List.mem_append, ih, List.mem_singleton]
      constructor
      · rintro (⟨taken, htaken, rfl⟩ | h)
        · exact ⟨c :: taken, List.forall_mem_cons.mpr ⟨hc, htaken⟩, rfl⟩
        · exact hnone h
      · rintro ⟨taken, htaken, heq⟩
        rcases hcases taken heq with ⟨-, h⟩ | ⟨more, rfl, rfl⟩
        · exact Or.inr h
        · exact Or.inl ⟨more, (List.forall_mem_cons.mp htaken).2, rfl⟩
    · rename_i hc
      rw [List.mem_singleton]
      refine ⟨hnone, ?_⟩
      rintro ⟨taken, htaken, heq⟩
      rcases hcases taken heq with ⟨-, h⟩ | ⟨more, rfl, -⟩
      · exact h
      · exact absurd (htaken c List.mem_cons_self) hc

/-- **The list has all matches** at the front of the text. -/
theorem mem_rests_iff :
    rest ∈ pattern.rests cs ↔ ∃ text, pattern.Matches text ∧ cs = text ++ rest := by
  induction pattern generalizing cs rest with
  | one p =>
    cases cs with
    | nil => simp [rests, Matches]
    | cons c cs =>
      have hmem : rest ∈ (Pattern.one p).rests (c :: cs) ↔ p c = true ∧ rest = cs := by
        rw [rests]
        split <;> simp [*]
      rw [hmem]
      constructor
      · rintro ⟨hc, rfl⟩
        exact ⟨[c], ⟨c, hc, rfl⟩, rfl⟩
      · rintro ⟨text, ⟨d, hd, rfl⟩, heq⟩
        obtain ⟨rfl, rfl⟩ := List.cons.inj heq
        exact ⟨hd, rfl⟩
  | many p => exact mem_runs_iff
  | seq first second ihfirst ihsecond =>
    rw [rests, List.mem_flatMap]
    constructor
    · rintro ⟨middle, hmiddle, hrest⟩
      obtain ⟨start, hstart, rfl⟩ := ihfirst.mp hmiddle
      obtain ⟨more, hmore, rfl⟩ := ihsecond.mp hrest
      exact ⟨start ++ more, ⟨start, more, hstart, hmore, rfl⟩, (List.append_assoc _ _ _).symm⟩
    · rintro ⟨text, ⟨start, more, hstart, hmore, rfl⟩, rfl⟩
      exact ⟨more ++ rest, ihfirst.mpr ⟨start, hstart, List.append_assoc _ _ _⟩,
        ihsecond.mpr ⟨more, hmore, rfl⟩⟩
  | alt first second ihfirst ihsecond =>
    rw [rests, List.mem_append, ihfirst, ihsecond]
    simp only [Matches, or_and_right, exists_or]
  | opt pattern ih =>
    rw [rests, List.mem_append, List.mem_singleton, ih]
    simp only [Matches, or_and_right, exists_or, exists_eq_left, List.nil_append]
    rw [eq_comm (a := rest)]

/-- A text matches as a whole if a match leaves nothing of it. -/
theorem nil_mem_rests_iff : [] ∈ pattern.rests cs ↔ pattern.Matches cs := by
  rw [mem_rests_iff]
  constructor
  · rintro ⟨text, htext, rfl⟩
    rwa [List.append_nil]
  · exact fun h => ⟨cs, h, (List.append_nil cs).symm⟩

instance (pattern : Pattern) (text : List Char) : Decidable (pattern.Matches text) :=
  decidable_of_iff _ nil_mem_rests_iff

/-! ## The first match -/

/-- All characters of a run are taken first. -/
theorem head?_runs (p : Char → Bool) (cs : List Char) :
    (runs p cs).head? = some (cs.dropWhile p) := by
  induction cs with
  | nil => rfl
  | cons c cs ih =>
    rw [runs, List.dropWhile_cons]
    split
    · rw [List.head?_append, ih, Option.some_or]
    · rfl

/-- Fewer characters of a run leave more of the text, which then starts with one of them. -/
theorem mem_runs_cases (h : rest ∈ runs p cs) :
    (cs.dropWhile p).length ≤ rest.length ∧
      (rest = cs.dropWhile p ∨ ∃ c more, p c = true ∧ rest = c :: more) := by
  obtain ⟨taken, htaken, rfl⟩ := mem_runs_iff.mp h
  rw [List.dropWhile_append_of_pos htaken]
  refine ⟨(List.dropWhile_sublist p).length_le, ?_⟩
  cases rest with
  | nil => exact Or.inl rfl
  | cons c more =>
    by_cases hc : p c = true
    · exact Or.inr ⟨c, more, hc, rfl⟩
    · exact Or.inl (List.dropWhile_cons_of_neg hc).symm

/-- **What cannot start with a character of the run** goes on after all of them. -/
theorem rests_seq_many (h : ∀ c cs, p c = true → other.rests (c :: cs) = []) (cs : List Char) :
    (seq (many p) other).rests cs = other.rests (cs.dropWhile p) := by
  show (runs p cs).flatMap other.rests = _
  induction cs with
  | nil => exact List.flatMap_singleton other.rests []
  | cons c cs ih =>
    rw [runs, List.dropWhile_cons]
    split
    · rename_i hc
      rw [List.flatMap_append, ih, List.flatMap_singleton, h c cs hc, List.append_nil]
    · rw [List.flatMap_singleton]

theorem rests_alt (pattern other : Pattern) (cs : List Char) :
    (alt pattern other).rests cs = pattern.rests cs ++ other.rests cs := rfl

theorem rests_one_of_pos {c : Char} (hc : p c = true) : (one p).rests (c :: cs) = [cs] := by
  rw [rests, if_pos hc]

theorem rests_one_of_neg {c : Char} (hc : p c = false) : (one p).rests (c :: cs) = [] := by
  rw [rests, hc, if_neg Bool.false_ne_true]

/-- A sequence has no match where its first pattern has none. -/
theorem rests_seq_of_nil (h : pattern.rests cs = []) (other : Pattern) :
    (seq pattern other).rests cs = [] := by
  rw [rests, h, List.flatMap_nil]

theorem rests_run_of_pos {c : Char} (hc : p c = true) : (run p).rests (c :: cs) = runs p cs := by
  rw [run, rests, rests_one_of_pos hc, List.flatMap_singleton, rests]

theorem rests_run_of_neg {c : Char} (hc : p c = false) : (run p).rests (c :: cs) = [] :=
  rests_seq_of_nil (rests_one_of_neg hc) _

theorem rests_seq_run_of_pos (h : ∀ c cs, p c = true → other.rests (c :: cs) = []) {c : Char}
    (hc : p c = true) (cs : List Char) :
    (seq (run p) other).rests (c :: cs) = other.rests (cs.dropWhile p) := by
  rw [← rests_seq_many h, rests, rests_run_of_pos hc]
  rfl

/-- The match of a run that comes first takes all of it. -/
theorem first?_run (p : Char → Bool) (cs : List Char) :
    (run p).first? cs = if (cs.takeWhile p).isEmpty then none else some (cs.dropWhile p) := by
  cases cs with
  | nil => rfl
  | cons c cs =>
    rw [first?]
    by_cases hc : p c = true
    · rw [rests_run_of_pos hc, head?_runs, List.takeWhile_cons_of_pos hc,
        List.dropWhile_cons_of_pos hc]
      rfl
    · rw [rests_run_of_neg (Bool.eq_false_iff.mpr hc), List.takeWhile_cons_of_neg hc]
      rfl

theorem mem_runs_of_mem_run (h : rest ∈ (run p).rests cs) : rest ∈ runs p cs := by
  obtain ⟨text, ⟨start, more, ⟨c, hc, rfl⟩, hmore, rfl⟩, rfl⟩ := mem_rests_iff.mp h
  exact mem_runs_iff.mpr ⟨_, List.forall_mem_cons.mpr ⟨hc, hmore⟩, rfl⟩

theorem greedy_run (p : Char → Bool) (cs : List Char) : (run p).Greedy cs := by
  intro rest h
  have hlength := (mem_runs_cases (mem_runs_of_mem_run h)).1
  rw [first?_run]
  split
  · rename_i hempty
    have hnone : (run p).first? cs = none := by rw [first?_run, if_pos hempty]
    rw [first?, List.head?_eq_none_iff] at hnone
    rw [hnone] at h
    contradiction
  · exact ⟨_, rfl, hlength⟩

theorem first?_alt :
    (alt pattern other).first? cs = (pattern.first? cs).or (other.first? cs) := by
  rw [first?, rests, List.head?_append]
  rfl

theorem first?_opt : (opt pattern).first? cs = some ((pattern.first? cs).getD cs) := by
  rw [first?, rests, List.head?_append, List.head?_singleton, Option.or_some]
  rfl

theorem first?_eq_none_iff : pattern.first? cs = none ↔ pattern.rests cs = [] :=
  List.head?_eq_none_iff

theorem length_le_of_mem_rests (h : rest ∈ pattern.rests cs) : rest.length ≤ cs.length := by
  obtain ⟨text, -, rfl⟩ := mem_rests_iff.mp h
  rw [List.length_append]
  exact Nat.le_add_left _ _

theorem mem_rests_of_first? (h : pattern.first? cs = some rest) : rest ∈ pattern.rests cs :=
  List.mem_of_head? h

theorem length_getD_first?_le : ((pattern.first? cs).getD cs).length ≤ cs.length := by
  cases h : pattern.first? cs with
  | none => exact Nat.le_refl _
  | some rest => exact length_le_of_mem_rests (mem_rests_of_first? h)

theorem starts_iff : pattern.Starts cs ↔ pattern.rests cs ≠ [] := by
  constructor
  · rintro ⟨text, hmatches, rest, rfl⟩
    exact List.ne_nil_of_mem (mem_rests_iff.mpr ⟨text, hmatches, rfl⟩)
  · intro h
    obtain ⟨rest, hrest⟩ := List.exists_mem_of_ne_nil _ h
    obtain ⟨text, hmatches, rfl⟩ := mem_rests_iff.mp hrest
    exact ⟨text, hmatches, List.prefix_append text rest⟩

theorem starts_append {text : List Char} (h : pattern.Matches text) (rest : List Char) :
    pattern.Starts (text ++ rest) := ⟨text, h, List.prefix_append text rest⟩

theorem starts_of_first? (h : pattern.first? cs = some rest) : pattern.Starts cs :=
  starts_iff.mpr (List.ne_nil_of_mem (mem_rests_of_first? h))

theorem absent_nil (pattern : Pattern) (rest : List Char) : pattern.Absent [] rest := by
  intro skipped more heq hne
  exact absurd (List.append_eq_nil_iff.mp heq.symm).2 hne

theorem absent_cons_iff {c : Char} {text : List Char} : pattern.Absent (c :: text) rest ↔
    ¬ pattern.Starts (c :: (text ++ rest)) ∧ pattern.Absent text rest := by
  constructor
  · intro h
    refine ⟨h [] (c :: text) rfl (List.cons_ne_nil _ _), ?_⟩
    rintro skipped more rfl hne
    exact h (c :: skipped) more rfl hne
  · rintro ⟨hfirst, hmore⟩ skipped more heq hne
    rcases List.append_eq_cons_iff.mp heq.symm with ⟨-, rfl⟩ | ⟨skipped, -, rfl⟩
    · exact hfirst
    · exact hmore skipped more rfl hne

theorem Absent.not_matches {text : List Char} (h : pattern.Absent text rest) (hne : text ≠ []) :
    ¬ pattern.Matches text :=
  fun hmatches => h [] text rfl hne (starts_append hmatches rest)

/-- **The match that comes first is the longest.** -/
theorem Greedy.longest {text : List Char} (h : pattern.Greedy (text ++ rest))
    (hfirst : pattern.first? (text ++ rest) = some rest) : pattern.Longest text rest := by
  constructor
  · obtain ⟨matched, hmatches, heq⟩ := mem_rests_iff.mp (mem_rests_of_first? hfirst)
    rwa [List.append_cancel_right heq]
  · rintro other hother ⟨more, hmore⟩
    obtain ⟨first, hfirst', hlength⟩ :=
      h more (mem_rests_iff.mpr ⟨other, hother, hmore.symm⟩)
    obtain rfl := Option.some.inj (hfirst.symm.trans hfirst')
    have hsizes := congrArg List.length hmore
    rw [List.length_append, List.length_append] at hsizes
    omega

theorem Greedy.opt (h : pattern.Greedy cs) : (opt pattern).Greedy cs := by
  intro rest hrest
  refine ⟨_, first?_opt, ?_⟩
  rcases List.mem_append.mp hrest with hrest | hrest
  · obtain ⟨first, hfirst, hlength⟩ := h rest hrest
    rwa [hfirst]
  · obtain rfl := List.mem_singleton.mp hrest
    exact length_getD_first?_le

/-- Where the first match can go on, it does. -/
theorem first?_seq {middle : List Char} (hfirst : pattern.first? cs = some middle)
    (hsecond : other.first? middle = some rest) : (seq pattern other).first? cs = some rest := by
  obtain ⟨middles, hmiddles⟩ := List.head?_eq_some_iff.mp hfirst
  rw [first?, rests, hmiddles, List.flatMap_cons, List.head?_append]
  rw [first?] at hsecond
  rw [hsecond, Option.some_or]

end Pattern

end Worksheet.Text
