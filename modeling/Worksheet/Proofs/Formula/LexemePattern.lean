import Worksheet.Proofs.Formula.Canonical
import Worksheet.Proofs.Number.Literal

/-!
# The pattern of lexemes

Brackets, operators, words and literals are the alternatives of one pattern, which a search tries in
this order. No two of them start with the same character, and each takes as much as it can, so the
match that comes first is the longest, and it is the lexeme that is split off a text. What a lexeme
is can be told from its text alone.

* `first?_tokenPattern`: the match that comes first is the lexeme that is split off.
* `greedy_tokenPattern`: no match is longer.
* `classify?_text`: what the text of a lexeme is by itself.
* `classify?_eq_none_iff`: no other text is anything.
-/

namespace Worksheet.Lexeme

open Text (Pattern isBlank)
open Name Number

/-! ## Patterns -/

/-- A round bracket. -/
def bracketPattern : Pattern := .alt (.one (· == '(')) (.one (· == ')'))

/-- An arithmetic operator. -/
def operatorPattern : Pattern := .one fun c => c == '+' || c == '-' || c == '*' || c == '/'

/-- A letter or underscore, and then letters, digits and underscores. -/
def wordPattern : Pattern := .seq (.one startsIdentifier) (.many continuesIdentifier)

/-- A token of the grammar. -/
def tokenPattern : Pattern :=
  .alt bracketPattern (.alt operatorPattern (.alt wordPattern literalPattern))

/-- What a lexeme of its kind matches. -/
def pattern : Lexeme → Pattern
  | .bracket b => .one (· == b.symbol)
  | .operator o => .one (· == o.symbol)
  | .word _ => wordPattern
  | .numeral _ => literalPattern

/-- A token, or blanks. -/
def piecePattern : Pattern := .alt tokenPattern (.run isBlank)

variable {c : Char} {cs text rest : List Char} {l : Lexeme}

theorem rests_tokenPattern (cs : List Char) : tokenPattern.rests cs =
    bracketPattern.rests cs ++ (operatorPattern.rests cs ++
      (wordPattern.rests cs ++ literalPattern.rests cs)) := rfl

/-! ## What a text starts with -/

theorem ofSymbol?_cases (h : ofSymbol? c = some l) :
    c = '(' ∨ c = ')' ∨ c = '+' ∨ c = '-' ∨ c = '*' ∨ c = '/' := by
  unfold ofSymbol? at h
  repeat' split at h
  all_goals
    first
      | contradiction
      | (subst c; decide)

/-- Brackets and operators are no characters of anything else. -/
theorem apart_of_ofSymbol? (h : ofSymbol? c = some l) :
    startsIdentifier c = false ∧ c.isDigit = false ∧ c ≠ '.' ∧ isBlank c = false := by
  rcases ofSymbol?_cases h with rfl | rfl | rfl | rfl | rfl | rfl
  all_goals decide

theorem rests_wordPattern_of_not (hc : startsIdentifier c = false) (cs : List Char) :
    wordPattern.rests (c :: cs) = [] :=
  Pattern.rests_seq_of_nil (Pattern.rests_one_of_neg hc) _

theorem rests_literalPattern_of_not (hdigit : c.isDigit = false) (hpoint : c ≠ '.')
    (cs : List Char) : literalPattern.rests (c :: cs) = [] := by
  refine Pattern.rests_seq_of_nil ?_ _
  rw [rests_mantissaPattern_of_not hdigit]
  refine rests_point_of_ne ?_
  rintro tail ⟨⟩
  exact hpoint rfl

theorem rests_symbols_of_none (hc : ofSymbol? c = none) (cs : List Char) :
    bracketPattern.rests (c :: cs) = [] ∧ operatorPattern.rests (c :: cs) = [] := by
  have hne : ∀ d : Char, (ofSymbol? d).isSome = true → (c == d) = false := by
    intro d hd
    refine beq_eq_false_iff_ne.mpr ?_
    rintro rfl
    rw [hc] at hd
    contradiction
  constructor
  · have hopening : (Pattern.one (· == '(')).rests (c :: cs) = [] :=
      Pattern.rests_one_of_neg (hne '(' rfl)
    have hclosing : (Pattern.one (· == ')')).rests (c :: cs) = [] :=
      Pattern.rests_one_of_neg (hne ')' rfl)
    rw [bracketPattern, Pattern.rests_alt, hopening, hclosing, List.nil_append]
  · refine Pattern.rests_one_of_neg ?_
    rw [hne '+' rfl, hne '-' rfl, hne '*' rfl, hne '/' rfl]
    rfl

/-- A bracket or operator is one character, and nothing else starts with it. -/
theorem rests_tokenPattern_of_symbol (hc : ofSymbol? c = some l) (cs : List Char) :
    tokenPattern.rests (c :: cs) = [cs] := by
  obtain ⟨hword, hdigit, hpoint, -⟩ := apart_of_ofSymbol? hc
  rw [rests_tokenPattern, rests_wordPattern_of_not hword,
    rests_literalPattern_of_not hdigit hpoint]
  rcases ofSymbol?_cases hc with rfl | rfl | rfl | rfl | rfl | rfl
  all_goals rfl

/-- Where a word starts, nothing else does. -/
theorem rests_tokenPattern_of_startsIdentifier (hc : startsIdentifier c = true) (cs : List Char) :
    tokenPattern.rests (c :: cs) = Pattern.runs continuesIdentifier cs := by
  have hsymbol := ofSymbol?_of_continuesIdentifier (continuesIdentifier_of_startsIdentifier hc)
  have hdigit : c.isDigit = false := by
    refine Bool.eq_false_iff.mpr fun hdigit => ?_
    rw [startsIdentifier_of_isDigit hdigit] at hc
    contradiction
  have hpoint : c ≠ '.' := by
    rintro rfl
    contradiction
  obtain ⟨hbracket, hoperator⟩ := rests_symbols_of_none hsymbol cs
  rw [rests_tokenPattern, hbracket, hoperator, rests_literalPattern_of_not hdigit hpoint,
    wordPattern, Pattern.rests, Pattern.rests_one_of_pos hc, List.flatMap_singleton,
    List.append_nil]
  rfl

/-- Anything else is a literal or nothing. -/
theorem rests_tokenPattern_of_not (hsymbol : ofSymbol? c = none)
    (hword : startsIdentifier c = false) (cs : List Char) :
    tokenPattern.rests (c :: cs) = literalPattern.rests (c :: cs) := by
  obtain ⟨hbracket, hoperator⟩ := rests_symbols_of_none hsymbol cs
  rw [rests_tokenPattern, hbracket, hoperator, rests_wordPattern_of_not hword]
  rfl

/-- **The lexeme that is split off** is the match that comes first. -/
theorem first?_tokenPattern (cs : List Char) :
    tokenPattern.first? cs = (first? cs).map Prod.snd := by
  cases cs with
  | nil => rfl
  | cons c cs =>
    rw [Pattern.first?, first?]
    cases hsymbol : ofSymbol? c with
    | some symbol =>
      rw [rests_tokenPattern_of_symbol hsymbol]
      rfl
    | none =>
      dsimp only
      split
      · rename_i hword
        rw [rests_tokenPattern_of_startsIdentifier hword]
        exact Pattern.head?_runs continuesIdentifier cs
      · rename_i hword
        rw [rests_tokenPattern_of_not hsymbol (Bool.eq_false_iff.mpr hword), Option.map_map]
        exact first?_literalPattern (c :: cs)

/-- **No match is longer** than the lexeme that is split off. -/
theorem greedy_tokenPattern (cs : List Char) : tokenPattern.Greedy cs := by
  cases cs with
  | nil => exact List.forall_mem_nil _
  | cons c cs =>
    rw [Pattern.Greedy, Pattern.first?]
    cases hsymbol : ofSymbol? c with
    | some symbol =>
      rw [rests_tokenPattern_of_symbol hsymbol]
      intro rest hrest
      rw [List.mem_singleton.mp hrest]
      exact ⟨cs, rfl, Nat.le_refl _⟩
    | none =>
      by_cases hword : startsIdentifier c = true
      · rw [rests_tokenPattern_of_startsIdentifier hword]
        exact fun rest hrest => ⟨_, Pattern.head?_runs _ _, (Pattern.mem_runs_cases hrest).1⟩
      · rw [rests_tokenPattern_of_not hsymbol (Bool.eq_false_iff.mpr hword)]
        exact greedy_literalPattern (c :: cs)

/-- No token starts with a blank. -/
theorem rests_tokenPattern_of_isBlank (hc : isBlank c = true) (cs : List Char) :
    tokenPattern.rests (c :: cs) = [] := by
  have hcontinues : ¬ continuesIdentifier c = true := by
    intro h
    rw [isBlank_of_continuesIdentifier h] at hc
    contradiction
  have hword : startsIdentifier c = false :=
    Bool.eq_false_iff.mpr (mt continuesIdentifier_of_startsIdentifier hcontinues)
  have hdigit : c.isDigit = false :=
    Bool.eq_false_iff.mpr (mt continuesIdentifier_of_isDigit hcontinues)
  have hsymbol : ofSymbol? c = none := by
    by_contra h
    obtain ⟨symbol, h⟩ := Option.ne_none_iff_exists'.mp h
    rw [(apart_of_ofSymbol? h).2.2.2] at hc
    contradiction
  have hpoint : c ≠ '.' := by
    rintro rfl
    contradiction
  rw [rests_tokenPattern_of_not hsymbol hword, rests_literalPattern_of_not hdigit hpoint]

/-! ## What a lexeme is by itself -/

/-- What the text of a lexeme is. -/
inductive Reading where
  | bracket (bracket : Bracket)
  | operator (operator : Operator)
  | word (name : List Char)
  | number (value : Binary64)

/-- What a lexeme is; a number is the double nearest to its literal. -/
def reading : Lexeme → Reading
  | .bracket b => .bracket b
  | .operator o => .operator o
  | .word w => .word w
  | .numeral n => .number n.nearest

/-- The bracket or operator that a text is. -/
def symbol? : List Char → Option Lexeme
  | [c] => ofSymbol? c
  | _ => none

/-- What a text by itself is, if it is a token of the grammar. -/
def classify? (text : List Char) : Option Reading :=
  match symbol? text with
  | some l => some l.reading
  | none =>
    if wordPattern.Matches text then some (.word text)
    else if literalPattern.Matches text then (Binary64.read? text).map .number
    else none

/-- What is split off a text is a symbol, a word or a literal. -/
theorem first?_cases (h : first? cs = some (l, rest)) :
    (∃ c, ofSymbol? c = some l) ∨
      (∃ c more, startsIdentifier c = true ∧ (∀ d ∈ more, continuesIdentifier d = true) ∧
        l = .word (c :: more)) ∨
      ∃ n, Numeral.scan? cs = some (n, rest) ∧ l = .numeral n := by
  unfold first? at h
  split at h
  · contradiction
  · split at h
    · rename_i symbol hsymbol
      obtain ⟨rfl, rfl⟩ := Prod.mk.inj (Option.some.inj h)
      exact Or.inl ⟨_, hsymbol⟩
    · split at h
      · rename_i hword
        obtain ⟨rfl, rfl⟩ := Prod.mk.inj (Option.some.inj h)
        exact Or.inr (Or.inl ⟨_, _, hword, List.all_eq_true.mp List.all_takeWhile, rfl⟩)
      · obtain ⟨⟨n, after⟩, hscan, heq⟩ := Option.map_eq_some_iff.mp h
        obtain ⟨rfl, rfl⟩ := Prod.mk.inj heq
        exact Or.inr (Or.inr ⟨n, hscan, rfl⟩)

theorem symbol?_of_none (hc : ofSymbol? c = none) (cs : List Char) : symbol? (c :: cs) = none := by
  cases cs with
  | nil => exact hc
  | cons d cs => rfl

theorem matches_wordPattern (hc : startsIdentifier c = true)
    (hcs : ∀ d ∈ cs, continuesIdentifier d = true) : wordPattern.Matches (c :: cs) :=
  ⟨[c], cs, ⟨c, hc, rfl⟩, hcs, rfl⟩

theorem matches_literalPattern {n : Numeral} (h : Numeral.scan? cs = some (n, rest)) :
    literalPattern.Matches n.text := by
  rw [← Pattern.nil_mem_rests_iff]
  refine Pattern.mem_rests_of_first? ?_
  rw [first?_literalPattern, Numeral.scan?_text h, Option.map_some]

/-- **A lexeme that was split off** matches what its kind does. -/
theorem matches_pattern (h : first? cs = some (l, rest)) : l.pattern.Matches l.text := by
  rcases first?_cases h with ⟨c, hsymbol⟩ | ⟨c, more, hc, hmore, rfl⟩ | ⟨n, hscan, rfl⟩
  · rcases ofSymbol?_cases hsymbol with rfl | rfl | rfl | rfl | rfl | rfl
    all_goals
      obtain rfl := Option.some.inj hsymbol
      exact ⟨_, rfl, rfl⟩
  · exact matches_wordPattern hc hmore
  · exact matches_literalPattern hscan

theorem classify?_word (hc : startsIdentifier c = true)
    (hcs : ∀ d ∈ cs, continuesIdentifier d = true) :
    classify? (c :: cs) = some (.word (c :: cs)) := by
  have hsymbol := ofSymbol?_of_continuesIdentifier (continuesIdentifier_of_startsIdentifier hc)
  rw [classify?, symbol?_of_none hsymbol]
  exact if_pos (matches_wordPattern hc hcs)

theorem classify?_numeral {n : Numeral} (h : Numeral.scan? cs = some (n, rest)) :
    classify? n.text = some (.number n.nearest) := by
  have hliteral := matches_literalPattern h
  have hread := Numeral.read?_text h
  obtain ⟨c, tail, htext, hc⟩ := Numeral.exists_cons_text h
  have hsymbol : ofSymbol? c = none := by
    rcases hc with hdigit | rfl
    · exact ofSymbol?_of_continuesIdentifier (continuesIdentifier_of_isDigit hdigit)
    · rfl
  have hword : ¬ wordPattern.Matches (c :: tail) := by
    have hstart : startsIdentifier c = false := by
      rcases hc with hdigit | rfl
      · exact startsIdentifier_of_isDigit hdigit
      · rfl
    rw [← Pattern.nil_mem_rests_iff, rests_wordPattern_of_not hstart]
    exact List.not_mem_nil
  rw [htext] at hliteral hread ⊢
  rw [classify?, symbol?_of_none hsymbol]
  dsimp only
  rw [if_neg hword, if_pos hliteral, hread]
  rfl

/-- **The text of a lexeme** is by itself what the lexeme is. -/
theorem classify?_text (h : first? cs = some (l, rest)) : classify? l.text = some l.reading := by
  rcases first?_cases h with ⟨c, hsymbol⟩ | ⟨c, more, hc, hmore, rfl⟩ | ⟨n, hscan, rfl⟩
  · rw [text_of_ofSymbol? hsymbol, classify?, symbol?, hsymbol]
  · exact classify?_word hc hmore
  · exact classify?_numeral hscan

/-- **A text by itself is a token** exactly if it belongs to the grammar. -/
theorem classify?_eq_none_iff : classify? text = none ↔ ¬ tokenPattern.Matches text := by
  constructor
  · intro hnone hmatches
    obtain ⟨after, hfirst, hlength⟩ :=
      greedy_tokenPattern text [] (Pattern.nil_mem_rests_iff.mpr hmatches)
    obtain rfl := List.eq_nil_of_length_eq_zero (Nat.le_zero.mp hlength)
    rw [first?_tokenPattern] at hfirst
    obtain ⟨⟨l, after⟩, hlexeme, rfl⟩ := Option.map_eq_some_iff.mp hfirst
    have htext := text_append_of_first? hlexeme
    rw [List.append_nil] at htext
    rw [← htext, classify?_text hlexeme] at hnone
    contradiction
  · intro hmatches
    have hsymbol : symbol? text = none := by
      cases h : symbol? text with
      | none => rfl
      | some l =>
        unfold symbol? at h
        split at h
        · refine absurd (Pattern.nil_mem_rests_iff.mp ?_) hmatches
          rw [rests_tokenPattern_of_symbol h]
          exact List.mem_singleton_self _
        · contradiction
    have hword : ¬ wordPattern.Matches text := fun h => hmatches (Or.inr (Or.inr (Or.inl h)))
    have hliteral : ¬ literalPattern.Matches text := fun h => hmatches (Or.inr (Or.inr (Or.inr h)))
    rw [classify?, hsymbol]
    dsimp only
    rw [if_neg hword, if_neg hliteral]

end Worksheet.Lexeme
