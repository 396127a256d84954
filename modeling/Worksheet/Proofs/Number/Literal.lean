import Worksheet.Number.Numeral
import Worksheet.Proofs.Number.Reading
import Worksheet.Proofs.Text.Pattern

/-!
# The pattern of decimal literals

A mantissa is tried in three forms: digits before a point and perhaps after it, digits after a point
and perhaps before it, and digits alone. An exponent may follow, if it is complete. The forms
overlap, but the match that comes first leaves the least of a text, and it is the literal that is
scanned.

* `first?_literalPattern`: the match that comes first is the literal that is scanned.
* `greedy_literalPattern`: no match is longer.
* `scan?_text`, `read?_text`: a literal that was scanned is a literal by itself, and it is read as
  its value.
-/

namespace Worksheet.Number

open Text (Pattern)

/-- A literal point. -/
def pointPattern : Pattern := .one (· == '.')

/-- Digits, and a point before, among or after them, or none. -/
def mantissaPattern : Pattern :=
  .alt (.seq (.run Char.isDigit) (.seq pointPattern (.many Char.isDigit)))
    (.alt (.seq (.many Char.isDigit) (.seq pointPattern (.run Char.isDigit)))
      (.run Char.isDigit))

/-- `e` or `E`, perhaps a sign, and digits. -/
def exponentPattern : Pattern :=
  .seq (.one fun c => c == 'e' || c == 'E')
    (.seq (.opt (.one fun c => c == '+' || c == '-')) (.run Char.isDigit))

/-- A decimal literal. -/
def literalPattern : Pattern := .seq mantissaPattern (.opt exponentPattern)

variable {cs rest : List Char} {c : Char}

/-! ## Exponents -/

/-- Digits come after the sign if there is one. -/
theorem rests_sign (cs : List Char) :
    (Pattern.seq (.opt (.one fun c => c == '+' || c == '-')) (.run Char.isDigit)).rests cs =
      (Pattern.run Char.isDigit).rests (Exponent.scanSign cs).2 := by
  rw [Pattern.rests, Pattern.rests]
  cases cs with
  | nil => rfl
  | cons c cs =>
    by_cases hsign : c = '+' ∨ c = '-'
    · have hone : (c == '+' || c == '-') = true := by simpa using hsign
      have hdigit : c.isDigit = false := by
        rcases hsign with rfl | rfl <;> rfl
      have hscan : (Exponent.scanSign (c :: cs)).2 = cs := by
        rcases hsign with rfl | rfl <;> rfl
      rw [Pattern.rests_one_of_pos hone, hscan, List.flatMap_append, List.flatMap_singleton,
        List.flatMap_singleton, Pattern.rests_run_of_neg hdigit, List.append_nil]
    · have hone : (c == '+' || c == '-') = false := by simpa using hsign
      have hscan : (Exponent.scanSign (c :: cs)).2 = c :: cs := by
        rw [not_or] at hsign
        simp [Exponent.scanSign, hsign]
      rw [Pattern.rests_one_of_neg hone, hscan, List.nil_append, List.flatMap_singleton]

theorem rests_exponentPattern_of_mark (hc : c = 'e' ∨ c = 'E') (cs : List Char) :
    exponentPattern.rests (c :: cs) =
      (Pattern.run Char.isDigit).rests (Exponent.scanSign cs).2 := by
  have hmark : (c == 'e' || c == 'E') = true := by simpa using hc
  rw [exponentPattern, Pattern.rests, Pattern.rests_one_of_pos hmark, List.flatMap_singleton,
    rests_sign]

theorem rests_exponentPattern_of_not (hc : ¬ (c = 'e' ∨ c = 'E')) (cs : List Char) :
    exponentPattern.rests (c :: cs) = [] := by
  have hmark : (c == 'e' || c == 'E') = false := by simpa using hc
  exact Pattern.rests_seq_of_nil (Pattern.rests_one_of_neg hmark) _

/-- **An exponent** is scanned as the pattern has it. -/
theorem first?_exponentPattern (cs : List Char) :
    exponentPattern.first? cs = (Exponent.scan? cs).map Prod.snd := by
  cases cs with
  | nil => rfl
  | cons c cs =>
    rw [Pattern.first?, Exponent.scan?]
    split
    · rename_i hc
      rw [rests_exponentPattern_of_mark hc, ← Pattern.first?, Pattern.first?_run]
      dsimp only
      split <;> rfl
    · rename_i hc
      rw [rests_exponentPattern_of_not hc]
      rfl

theorem greedy_exponentPattern (cs : List Char) : exponentPattern.Greedy cs := by
  cases cs with
  | nil => exact List.forall_mem_nil _
  | cons c cs =>
    by_cases hc : c = 'e' ∨ c = 'E'
    · rw [Pattern.Greedy, Pattern.first?, rests_exponentPattern_of_mark hc]
      exact Pattern.greedy_run _ _
    · rw [Pattern.Greedy, rests_exponentPattern_of_not hc]
      exact List.forall_mem_nil _

/-! ## Mantissas -/

theorem rests_point (pattern : Pattern) (tail : List Char) :
    (Pattern.seq pointPattern pattern).rests ('.' :: tail) = pattern.rests tail := by
  rw [Pattern.rests, pointPattern, Pattern.rests_one_of_pos rfl, List.flatMap_singleton]

theorem rests_point_of_ne {pattern : Pattern} (h : ∀ tail, cs ≠ '.' :: tail) :
    (Pattern.seq pointPattern pattern).rests cs = [] := by
  refine Pattern.rests_seq_of_nil ?_ pattern
  cases cs with
  | nil => rfl
  | cons c cs =>
    refine Pattern.rests_one_of_neg (beq_eq_false_iff_ne.mpr ?_)
    rintro rfl
    exact h cs rfl

theorem rests_point_of_isDigit {pattern : Pattern} (c : Char) (cs : List Char)
    (hc : c.isDigit = true) : (Pattern.seq pointPattern pattern).rests (c :: cs) = [] := by
  refine rests_point_of_ne ?_
  rintro tail ⟨⟩
  contradiction

/-- After digits come a point and perhaps more digits, or fewer digits were taken. -/
theorem rests_mantissaPattern_of_digit (hc : c.isDigit = true) (cs : List Char) :
    mantissaPattern.rests (c :: cs) =
      (Pattern.seq pointPattern (.many Char.isDigit)).rests (cs.dropWhile Char.isDigit) ++
        ((Pattern.seq pointPattern (.run Char.isDigit)).rests (cs.dropWhile Char.isDigit) ++
          Pattern.runs Char.isDigit cs) := by
  rw [mantissaPattern, Pattern.rests_alt, Pattern.rests_alt,
    Pattern.rests_seq_run_of_pos rests_point_of_isDigit hc,
    Pattern.rests_seq_many rests_point_of_isDigit, Pattern.rests_run_of_pos hc,
    List.dropWhile_cons_of_pos hc]

/-- Without digits before it, a point needs digits after it. -/
theorem rests_mantissaPattern_of_not (hc : c.isDigit = false) (cs : List Char) :
    mantissaPattern.rests (c :: cs) =
      (Pattern.seq pointPattern (.run Char.isDigit)).rests (c :: cs) := by
  have hdrop : (c :: cs).dropWhile Char.isDigit = c :: cs :=
    List.dropWhile_cons_of_neg (by simp [hc])
  rw [mantissaPattern, Pattern.rests_alt, Pattern.rests_alt,
    Pattern.rests_seq_of_nil (Pattern.rests_run_of_neg hc),
    Pattern.rests_seq_many rests_point_of_isDigit, Pattern.rests_run_of_neg hc, hdrop,
    List.nil_append, List.append_nil]

/-- **The mantissa that comes first** has all digits up to a point and after it. -/
theorem first?_mantissaPattern_of_point {tail : List Char}
    (h : cs.dropWhile Char.isDigit = '.' :: tail) :
    mantissaPattern.first? cs =
      if (cs.takeWhile Char.isDigit).isEmpty && (tail.takeWhile Char.isDigit).isEmpty then none
      else some (tail.dropWhile Char.isDigit) := by
  cases cs with
  | nil => contradiction
  | cons c cs =>
    rw [Pattern.first?]
    by_cases hc : c.isDigit = true
    · rw [List.dropWhile_cons_of_pos hc] at h
      rw [rests_mantissaPattern_of_digit hc, h, rests_point, List.head?_append,
        List.takeWhile_cons_of_pos hc]
      exact congrArg (Option.or · _) (Pattern.head?_runs Char.isDigit tail)
    · rw [List.dropWhile_cons_of_neg hc] at h
      rw [rests_mantissaPattern_of_not (Bool.eq_false_iff.mpr hc), h, rests_point,
        List.takeWhile_cons_of_neg (by decide), List.isEmpty_nil, Bool.true_and]
      exact Pattern.first?_run Char.isDigit tail

/-- Without a point it has all digits. -/
theorem first?_mantissaPattern_of_ne (h : ∀ tail, cs.dropWhile Char.isDigit ≠ '.' :: tail) :
    mantissaPattern.first? cs =
      if (cs.takeWhile Char.isDigit).isEmpty then none else some (cs.dropWhile Char.isDigit) := by
  cases cs with
  | nil => rfl
  | cons c cs =>
    rw [Pattern.first?]
    by_cases hc : c.isDigit = true
    · rw [List.dropWhile_cons_of_pos hc] at h ⊢
      rw [rests_mantissaPattern_of_digit hc, rests_point_of_ne h, rests_point_of_ne h,
        List.takeWhile_cons_of_pos hc]
      exact Pattern.head?_runs Char.isDigit cs
    · rw [List.dropWhile_cons_of_neg hc] at h
      rw [rests_mantissaPattern_of_not (Bool.eq_false_iff.mpr hc), rests_point_of_ne h,
        List.takeWhile_cons_of_neg hc]
      rfl

theorem rests_exponentPattern_of_isDigit (hc : c.isDigit = true) (cs : List Char) :
    exponentPattern.rests (c :: cs) = [] := by
  refine rests_exponentPattern_of_not ?_ cs
  rintro (rfl | rfl) <;> contradiction

/-- Where fewer digits were taken, no exponent follows. -/
theorem mem_runs_isDigit_cases (h : rest ∈ Pattern.runs Char.isDigit cs) :
    (cs.dropWhile Char.isDigit).length ≤ rest.length ∧
      (rest = cs.dropWhile Char.isDigit ∨ exponentPattern.rests rest = []) := by
  obtain ⟨hlength, hcases⟩ := Pattern.mem_runs_cases h
  refine ⟨hlength, hcases.imp_right ?_⟩
  rintro ⟨c, more, hc, rfl⟩
  exact rests_exponentPattern_of_isDigit hc more

/-- **A mantissa that comes later** leaves no less, and then no exponent follows it. -/
theorem mem_mantissaPattern_cases (h : rest ∈ mantissaPattern.rests cs) :
    ∃ first, mantissaPattern.first? cs = some first ∧ first.length ≤ rest.length ∧
      (rest = first ∨ exponentPattern.rests rest = []) := by
  cases cs with
  | nil => contradiction
  | cons c cs =>
    by_cases hc : c.isDigit = true
    · rw [rests_mantissaPattern_of_digit hc, List.mem_append, List.mem_append] at h
      have hdrop : (c :: cs).dropWhile Char.isDigit = cs.dropWhile Char.isDigit :=
        List.dropWhile_cons_of_pos hc
      have htake : ((c :: cs).takeWhile Char.isDigit).isEmpty = false := by
        rw [List.takeWhile_cons_of_pos hc, List.isEmpty_cons]
      by_cases hpoint : ∃ tail, cs.dropWhile Char.isDigit = '.' :: tail
      · obtain ⟨tail, hpoint⟩ := hpoint
        rw [first?_mantissaPattern_of_point (hdrop.trans hpoint), htake]
        rw [hpoint, rests_point, rests_point] at h
        refine ⟨_, rfl, ?_⟩
        -- In the third form the match stops at the point, and a point starts no exponent.
        rcases h with h | h | h
        · exact mem_runs_isDigit_cases h
        · exact mem_runs_isDigit_cases (Pattern.mem_runs_of_mem_run h)
        · obtain ⟨hlength, hcases⟩ := mem_runs_isDigit_cases h
          have hshorter := (List.dropWhile_sublist Char.isDigit (l := tail)).length_le
          rw [hpoint] at hlength hcases
          refine ⟨hshorter.trans (Nat.le_of_succ_le hlength), Or.inr (hcases.elim ?_ id)⟩
          rintro rfl
          exact rests_exponentPattern_of_not (by decide) tail
      · rw [not_exists] at hpoint
        rw [first?_mantissaPattern_of_ne (by rwa [hdrop]), htake, hdrop]
        rw [rests_point_of_ne hpoint, rests_point_of_ne hpoint] at h
        refine ⟨_, rfl, ?_⟩
        rcases h with h | h | h
        · contradiction
        · contradiction
        · exact mem_runs_isDigit_cases h
    · rw [rests_mantissaPattern_of_not (Bool.eq_false_iff.mpr hc)] at h
      by_cases hpoint : c = '.'
      · subst hpoint
        rw [rests_point] at h
        obtain ⟨first, hfirst, -⟩ := Pattern.greedy_run _ _ rest h
        rw [first?_mantissaPattern_of_point (List.dropWhile_cons_of_neg hc)]
        rw [Pattern.first?_run] at hfirst
        rw [List.takeWhile_cons_of_neg hc, List.isEmpty_nil, Bool.true_and, hfirst]
        obtain ⟨-, hfirst⟩ := Option.ite_none_left_eq_some.mp hfirst
        obtain rfl := Option.some.inj hfirst
        exact ⟨_, rfl, mem_runs_isDigit_cases (Pattern.mem_runs_of_mem_run h)⟩
      · rw [rests_point_of_ne (by rintro tail ⟨⟩; exact hpoint rfl)] at h
        contradiction

/-! ## Literals -/

theorem snd_withExponent (whole : List Char) (decimals : Option (List Char)) (rest : List Char) :
    (Numeral.withExponent whole decimals rest).2 = (exponentPattern.first? rest).getD rest := by
  rw [first?_exponentPattern, Numeral.withExponent]
  cases Exponent.scan? rest with
  | none => rfl
  | some scanned => rfl

theorem scan?_of_point {tail : List Char} (h : cs.dropWhile Char.isDigit = '.' :: tail) :
    Numeral.scan? cs =
      if (cs.takeWhile Char.isDigit).isEmpty && (tail.takeWhile Char.isDigit).isEmpty then none
      else some (Numeral.withExponent (cs.takeWhile Char.isDigit)
        (some (tail.takeWhile Char.isDigit)) (tail.dropWhile Char.isDigit)) := by
  simp only [Numeral.scan?, h]

theorem scan?_of_ne (h : ∀ tail, cs.dropWhile Char.isDigit ≠ '.' :: tail) :
    Numeral.scan? cs =
      if (cs.takeWhile Char.isDigit).isEmpty then none
      else some (Numeral.withExponent (cs.takeWhile Char.isDigit) none
        (cs.dropWhile Char.isDigit)) := by
  rw [Numeral.scan?]
  dsimp only
  split
  · rename_i tail hpoint
    exact absurd hpoint (h tail)
  · rfl

theorem map_snd_scan? (cs : List Char) : (Numeral.scan? cs).map Prod.snd =
    (mantissaPattern.first? cs).map fun rest => (exponentPattern.first? rest).getD rest := by
  by_cases hpoint : ∃ tail, cs.dropWhile Char.isDigit = '.' :: tail
  · obtain ⟨tail, hpoint⟩ := hpoint
    rw [scan?_of_point hpoint, first?_mantissaPattern_of_point hpoint]
    split
    · rfl
    · rw [Option.map_some, Option.map_some, snd_withExponent]
  · rw [not_exists] at hpoint
    rw [scan?_of_ne hpoint, first?_mantissaPattern_of_ne hpoint]
    split
    · rfl
    · rw [Option.map_some, Option.map_some, snd_withExponent]

/-- **The literal that is scanned** is the match that comes first. -/
theorem first?_literalPattern (cs : List Char) :
    literalPattern.first? cs = (Numeral.scan? cs).map Prod.snd := by
  rw [map_snd_scan?]
  cases hmantissa : mantissaPattern.first? cs with
  | none =>
    rw [Pattern.first?_eq_none_iff] at hmantissa
    rw [Option.map_none, Pattern.first?_eq_none_iff]
    exact Pattern.rests_seq_of_nil hmantissa _
  | some rest => exact Pattern.first?_seq hmantissa Pattern.first?_opt

/-- **No match is longer** than the literal that is scanned. -/
theorem greedy_literalPattern (cs : List Char) : literalPattern.Greedy cs := by
  intro rest h
  obtain ⟨middle, hmiddle, hrest⟩ := List.mem_flatMap.mp h
  obtain ⟨first, hfirst, hlength, hcases⟩ := mem_mantissaPattern_cases hmiddle
  refine ⟨_, Pattern.first?_seq hfirst Pattern.first?_opt, ?_⟩
  rcases hcases with rfl | hnone
  · obtain ⟨best, hbest, hle⟩ := (greedy_exponentPattern middle).opt rest hrest
    rw [Pattern.first?_opt] at hbest
    rwa [Option.some.inj hbest]
  · rw [Pattern.rests, hnone, List.nil_append, List.mem_singleton] at hrest
    rw [hrest]
    exact Pattern.length_getD_first?_le.trans hlength

/-! ## Literals by themselves -/

theorem forall_isDigit_takeWhile (cs : List Char) :
    ∀ c ∈ cs.takeWhile Char.isDigit, c.isDigit = true :=
  List.all_eq_true.mp List.all_takeWhile

namespace Exponent

theorem scanSign_fst (cs : List Char) :
    (scanSign cs).1 = none ∨ (scanSign cs).1 = some '+' ∨ (scanSign cs).1 = some '-' := by
  unfold scanSign
  split <;> simp

/-- A sign is split off digits, and no digit is a sign. -/
theorem scanSign_append_digits {sign : Option Char} {digits : List Char}
    (hsign : sign = none ∨ sign = some '+' ∨ sign = some '-')
    (hdigits : ∀ c ∈ digits, c.isDigit = true) :
    scanSign (sign.toList ++ digits) = (sign, digits) := by
  rcases hsign with rfl | rfl | rfl
  · rw [Option.toList_none, List.nil_append]
    unfold scanSign
    split
    · exact absurd (hdigits '+' List.mem_cons_self) (by decide)
    · exact absurd (hdigits '-' List.mem_cons_self) (by decide)
    · rfl
  · rfl
  · rfl

/-- **An exponent that was scanned** is one by itself, and starts with its mark. -/
theorem scan?_text {e : Exponent} (h : scan? cs = some (e, rest)) :
    scan? e.text = some (e, []) ∧ (e.mark = 'e' ∨ e.mark = 'E') := by
  unfold scan? at h
  split at h
  · contradiction
  · rename_i mark tail
    split at h
    · rename_i hmark
      dsimp only at h
      split at h
      · contradiction
      · rename_i hdigits
        obtain ⟨rfl, rfl⟩ := Prod.mk.inj (Option.some.inj h)
        have hall := forall_isDigit_takeWhile (scanSign tail).2
        refine ⟨?_, hmark⟩
        rw [text, scan?, if_pos hmark, scanSign_append_digits (scanSign_fst tail) hall]
        dsimp only
        rw [List.takeWhile_eq_self_iff.mpr hall, List.dropWhile_eq_nil_iff.mpr hall,
          if_neg hdigits]
    · contradiction

end Exponent

namespace Numeral

variable {n : Numeral} {whole : List Char} {decimals : Option (List Char)}

/-- What follows a mantissa is an exponent or nothing, and it is scanned again by itself. -/
theorem withExponent_text (h : withExponent whole decimals cs = (n, rest)) :
    ∃ more, n.text = mantissaText ⟨whole, decimals, none⟩ ++ more ∧
      withExponent whole decimals more = (n, []) ∧
        ∀ c ∈ more.head?, c.isDigit = false ∧ c ≠ '.' := by
  unfold withExponent at h
  split at h
  · rename_i e after hscan
    obtain ⟨rfl, rfl⟩ := Prod.mk.inj h
    obtain ⟨hself, hmark⟩ := Exponent.scan?_text hscan
    refine ⟨e.text, rfl, ?_, ?_⟩
    · rw [withExponent, hself]
    · rintro c ⟨⟩
      rcases hmark with hmark | hmark
      · rw [hmark]
        decide
      · rw [hmark]
        decide
  · obtain ⟨rfl, rfl⟩ := Prod.mk.inj h
    refine ⟨[], rfl, rfl, ?_⟩
    rintro c ⟨⟩

/-- **A literal that was scanned** is a literal by itself. -/
theorem scan?_text (h : scan? cs = some (n, rest)) : scan? n.text = some (n, []) := by
  have hwhole := forall_isDigit_takeWhile cs
  by_cases hpoint : ∃ tail, cs.dropWhile Char.isDigit = '.' :: tail
  · obtain ⟨tail, hpoint⟩ := hpoint
    have hdecimals := forall_isDigit_takeWhile tail
    rw [scan?_of_point hpoint] at h
    obtain ⟨hempty, h⟩ := Option.ite_none_left_eq_some.mp h
    obtain ⟨more, htext, hself, hmore⟩ := withExponent_text (Option.some.inj h)
    have hstop : ∀ c ∈ more.head?, c.isDigit = false := fun c hc => (hmore c hc).1
    have hdot : ∀ c ∈ ('.' :: (tail.takeWhile Char.isDigit ++ more)).head?, c.isDigit = false := by
      rintro c ⟨⟩
      rfl
    rw [htext, mantissaText, List.append_assoc, List.cons_append,
      scan?_of_point (Text.dropWhile_append hwhole hdot), Text.takeWhile_append hwhole hdot,
      Text.takeWhile_append hdecimals hstop, Text.dropWhile_append hdecimals hstop, if_neg hempty,
      hself]
  · rw [not_exists] at hpoint
    rw [scan?_of_ne hpoint] at h
    obtain ⟨hempty, h⟩ := Option.ite_none_left_eq_some.mp h
    obtain ⟨more, htext, hself, hmore⟩ := withExponent_text (Option.some.inj h)
    have hstop : ∀ c ∈ more.head?, c.isDigit = false := fun c hc => (hmore c hc).1
    have hne : ∀ tail, more ≠ '.' :: tail := by
      rintro tail rfl
      exact (hmore '.' rfl).2 rfl
    have hdrop := Text.dropWhile_append hwhole hstop
    rw [htext, mantissaText, List.append_nil, scan?_of_ne (by rwa [hdrop]), hdrop,
      Text.takeWhile_append hwhole hstop, if_neg hempty, hself]

/-- A literal starts with a digit or a point. -/
theorem scan?_cons_eq_none (hdigit : c.isDigit = false) (hpoint : c ≠ '.') (cs : List Char) :
    scan? (c :: cs) = none := by
  have hneg : ¬ c.isDigit = true := by simp [hdigit]
  have hdrop : (c :: cs).dropWhile Char.isDigit = c :: cs := List.dropWhile_cons_of_neg hneg
  have hne : ∀ tail, (c :: cs).dropWhile Char.isDigit ≠ '.' :: tail := by
    rw [hdrop]
    rintro tail ⟨⟩
    exact hpoint rfl
  rw [scan?_of_ne hne, List.takeWhile_cons_of_neg hneg]
  rfl

/-- The double nearest to a literal, which is infinite if no finite one is. -/
def nearest (n : Numeral) : Binary64 :=
  match n.magnitude? with
  | some m => .finite false m
  | none => .infinite false

theorem exists_cons_text (h : scan? cs = some (n, rest)) :
    ∃ c tail, n.text = c :: tail ∧ (c.isDigit = true ∨ c = '.') := by
  obtain ⟨c, tail, htext⟩ := List.exists_cons_of_ne_nil (text_ne_nil_of_scan? h)
  refine ⟨c, tail, htext, ?_⟩
  have hself := scan?_text h
  by_contra hc
  rw [not_or, Bool.not_eq_true] at hc
  rw [htext, scan?_cons_eq_none hc.1 hc.2] at hself
  contradiction

/-- **A literal is read as the number** that it is. -/
theorem read?_text (h : scan? cs = some (n, rest)) : Binary64.read? n.text = some n.nearest := by
  have hself := scan?_text h
  obtain ⟨c, tail, htext, hc⟩ := exists_cons_text h
  have hlower : c.toLower = c := by
    rcases hc with hc | rfl
    · exact Binary64.toLower_of_isDigit hc
    · rfl
  have hne : ∀ d : Char, d.isDigit = false → d ≠ '.' → c ≠ d := by
    rintro d hdigit hpoint rfl
    rcases hc with hc | hc
    · rw [hdigit] at hc
      contradiction
    · exact hpoint hc
  have hread : Binary64.read? n.text = Binary64.readUnsigned? n.text := by
    rw [htext, Binary64.read?]
    · rintro text ⟨⟩
      exact hne '-' rfl (by decide) rfl
    · rintro text ⟨⟩
      exact hne '+' rfl (by decide) rfl
  have hword : n.text.map Char.toLower = c :: tail.map Char.toLower := by
    rw [htext, List.map_cons, hlower]
  have hi := hne 'i' rfl (by decide)
  have hn := hne 'n' rfl (by decide)
  rw [hread, Binary64.readUnsigned?, hself, hword]
  simp only [List.cons.injEq, hi, hn, false_and, or_self, if_false]
  rfl

end Numeral

end Worksheet.Number
