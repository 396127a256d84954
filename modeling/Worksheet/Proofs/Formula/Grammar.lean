import Mathlib.Logic.Basic
import Worksheet.Formula.Arrangement

/-!
# The grammar of expressions

The tokens of a formula are an expression of the grammar

    Expression ::= Operand (operator Operand)*
    Operand ::= number | variable | '(' Expression ')'

`Derives` is this grammar, where `Arrangement.fault?` looks at neighbours and counts brackets.
`Completes` stands between the two: it follows the tokens one by one, with the number of brackets
that are open and whether a value has just ended.

* `fault?_eq_none_iff`: there is no fault exactly when the tokens complete an expression.
* `completes_iff_derives`: they do exactly when the grammar derives them.
-/

namespace Worksheet

/-- The two kinds of token sequences that the grammar knows. -/
inductive Phrase where
  | expression
  | operand

/-- The grammar derives the tokens as a phrase. -/
inductive Derives : Phrase → List Token → Prop
  | number (m : Number.Magnitude) : Derives .operand [.number m]
  | named (name : String) : Derives .operand [.variable name]
  | bracketed {tokens : List Token} (h : Derives .expression tokens) :
      Derives .operand (.bracket .opening :: tokens ++ [.bracket .closing])
  | single {tokens : List Token} (h : Derives .operand tokens) : Derives .expression tokens
  | joined {first rest : List Token} (h : Derives .operand first) (o : Operator)
      (hrest : Derives .expression rest) : Derives .expression (first ++ .operator o :: rest)

/-- The tokens complete an expression in which `depth` brackets are open, after a value if `ended`
and where a value is wanted otherwise. -/
inductive Completes : (depth : Nat) → (ended : Bool) → List Token → Prop
  | nil : Completes 0 true []
  | number {depth : Nat} {tokens : List Token} (m : Number.Magnitude)
      (h : Completes depth true tokens) : Completes depth false (.number m :: tokens)
  | named {depth : Nat} {tokens : List Token} (name : String)
      (h : Completes depth true tokens) : Completes depth false (.variable name :: tokens)
  | opening {depth : Nat} {tokens : List Token} (h : Completes (depth + 1) false tokens) :
      Completes depth false (.bracket .opening :: tokens)
  | closing {depth : Nat} {tokens : List Token} (h : Completes depth true tokens) :
      Completes (depth + 1) true (.bracket .closing :: tokens)
  | operator {depth : Nat} {tokens : List Token} (o : Operator)
      (h : Completes depth false tokens) : Completes depth true (.operator o :: tokens)

/-! ## What may come next -/

section Next

variable {depth : Nat} {ended : Bool} {tokens : List Token}

theorem completes_nil_iff : Completes depth ended [] ↔ depth = 0 ∧ ended = true := by
  constructor
  · rintro ⟨⟩
    exact ⟨rfl, rfl⟩
  · rintro ⟨rfl, rfl⟩
    exact .nil

theorem completes_number_iff {m : Number.Magnitude} :
    Completes depth ended (.number m :: tokens) ↔ ended = false ∧ Completes depth true tokens := by
  constructor
  · intro h
    cases h with
    | number _ h => exact ⟨rfl, h⟩
  · rintro ⟨rfl, h⟩
    exact .number m h

theorem completes_variable_iff {name : String} :
    Completes depth ended (.variable name :: tokens) ↔
      ended = false ∧ Completes depth true tokens := by
  constructor
  · intro h
    cases h with
    | named _ h => exact ⟨rfl, h⟩
  · rintro ⟨rfl, h⟩
    exact .named name h

theorem completes_opening_iff :
    Completes depth ended (.bracket .opening :: tokens) ↔
      ended = false ∧ Completes (depth + 1) false tokens := by
  constructor
  · intro h
    cases h with
    | opening h => exact ⟨rfl, h⟩
  · rintro ⟨rfl, h⟩
    exact .opening h

theorem completes_closing_iff :
    Completes depth ended (.bracket .closing :: tokens) ↔
      ended = true ∧ 1 ≤ depth ∧ Completes (depth - 1) true tokens := by
  constructor
  · intro h
    cases h with
    | closing h => exact ⟨rfl, Nat.succ_pos _, h⟩
  · rintro ⟨rfl, hdepth, h⟩
    cases depth with
    | zero => contradiction
    | succ depth => exact .closing h

theorem completes_operator_iff {o : Operator} :
    Completes depth ended (.operator o :: tokens) ↔
      ended = true ∧ Completes depth false tokens := by
  constructor
  · intro h
    cases h with
    | operator _ h => exact ⟨rfl, h⟩
  · rintro ⟨rfl, h⟩
    exact .operator o h

/-- A token changes how many brackets are open and whether a value has just ended. -/
theorem completes_cons_iff {token : Token} :
    Completes depth ended (token :: tokens) ↔ token.startsValue = !ended ∧
      token.closes ≤ depth + token.opens ∧
        Completes (depth + token.opens - token.closes) token.endsValue tokens := by
  match token with
  | .number m =>
    show _ ↔ true = !ended ∧ 0 ≤ depth ∧ Completes depth true tokens
    simp [completes_number_iff]
  | .variable name =>
    show _ ↔ true = !ended ∧ 0 ≤ depth ∧ Completes depth true tokens
    simp [completes_variable_iff]
  | .operator o =>
    show _ ↔ false = !ended ∧ 0 ≤ depth ∧ Completes depth false tokens
    simp [completes_operator_iff]
  | .bracket .opening =>
    show _ ↔ true = !ended ∧ 0 ≤ depth + 1 ∧ Completes (depth + 1) false tokens
    simp [completes_opening_iff]
  | .bracket .closing =>
    show _ ↔ false = !ended ∧ 1 ≤ depth ∧ Completes (depth - 1) true tokens
    simp [completes_closing_iff]

end Next

/-! ## Arrangement and completion -/

namespace Arrangement

theorem canFollow_iff {token previous : Token} :
    token.canFollow previous = true ↔ token.startsValue = !previous.endsValue := by
  unfold Token.canFollow
  cases previous.endsValue <;> simp

/-- One token of the walk. -/
theorem faultAfter?_cons_eq_none_iff {previous token : Token} {index opened closed : Nat}
    {rest : List Token} :
    faultAfter? previous index opened closed (token :: rest) = none ↔
      closed + token.closes ≤ opened + token.opens ∧ token.startsValue = !previous.endsValue ∧
        faultAfter? token (index + 1) (opened + token.opens) (closed + token.closes) rest =
          none := by
  rw [← canFollow_iff, faultAfter?]
  by_cases hclose : opened + token.opens < closed + token.closes
  · simp [hclose, Nat.not_le_of_lt hclose]
  · by_cases hfollow : token.canFollow previous = true
    · simp [hclose, hfollow, Nat.le_of_not_lt hclose]
    · simp [hclose, hfollow]

/-- The walk finds no fault, and a value ends at the end, exactly when the tokens complete an
expression. -/
theorem faultAfter?_eq_none_iff {previous : Token} {index opened closed : Nat} {tokens : List Token}
    (h : closed ≤ opened) :
    faultAfter? previous index opened closed tokens = none ∧
        (tokens.getLastD previous).endsValue = true ↔
      Completes (opened - closed) previous.endsValue tokens := by
  induction tokens generalizing previous index opened closed with
  | nil =>
    have hclosed : faultAfter? previous index opened closed [] = none ↔ opened - closed = 0 := by
      rw [faultAfter?, ite_eq_left_iff]
      simp only [reduceCtorEq, imp_false, not_not]
      omega
    rw [completes_nil_iff, hclosed, List.getLastD_nil]
  | cons token rest ih =>
    rw [completes_cons_iff, List.getLastD_cons, faultAfter?_cons_eq_none_iff]
    have hdepth : opened - closed + token.opens - token.closes =
        opened + token.opens - (closed + token.closes) := by omega
    have hcloses : token.closes ≤ opened - closed + token.opens ↔
        closed + token.closes ≤ opened + token.opens := by omega
    rw [hdepth, hcloses]
    constructor
    · rintro ⟨⟨hle, hstarts, hrest⟩, hlast⟩
      exact ⟨hstarts, hle, (ih hle).mp ⟨hrest, hlast⟩⟩
    · rintro ⟨hstarts, hle, hrest⟩
      obtain ⟨hrest, hlast⟩ := (ih hle).mpr hrest
      exact ⟨⟨hle, hstarts, hrest⟩, hlast⟩

/-- A token that starts a value closes no bracket. -/
theorem closes_eq_zero {token : Token} (h : token.startsValue = true) : token.closes = 0 := by
  unfold Token.closes
  split
  · subst token
    contradiction
  · rfl

/-- **Tokens are without fault** exactly when they complete an expression. -/
theorem fault?_eq_none_iff {tokens : List Token} :
    fault? tokens = none ↔ Completes 0 false tokens := by
  cases tokens with
  | nil => simp [fault?, completes_nil_iff]
  | cons first rest =>
    rw [completes_cons_iff, fault?]
    by_cases hfirst : first.startsValue = true
    · have hcloses := closes_eq_zero hfirst
      have hwalk : faultAfter? first 1 first.opens first.closes rest = none ∧
          (rest.getLastD first).endsValue = true ↔
            Completes (first.opens - first.closes) first.endsValue rest :=
        faultAfter?_eq_none_iff (by omega)
      rw [Nat.zero_add, ← hwalk]
      cases hlast : (rest.getLastD first).endsValue <;> simp [hfirst, hcloses]
    · simp [hfirst]

end Arrangement

/-! ## Completion and derivation -/

/-- What derives from the grammar completes an expression where a value is wanted, before whatever
completes it after a value. -/
theorem Derives.completes {phrase : Phrase} {tokens : List Token} (h : Derives phrase tokens)
    {depth : Nat} {rest : List Token} (hrest : Completes depth true rest) :
    Completes depth false (tokens ++ rest) := by
  induction h generalizing depth rest with
  | number m => exact .number m hrest
  | named name => exact .named name hrest
  | bracketed _ ih =>
    rw [List.append_assoc]
    exact .opening (ih (.closing hrest))
  | single _ ih => exact ih hrest
  | joined _ o _ ih ihrest =>
    rw [List.append_assoc]
    exact ih (.operator o (ihrest hrest))

/-- Nothing, or a closing bracket: what may stand after an expression. -/
def Stops (tokens : List Token) : Prop :=
  ∀ token ∈ tokens.head?, token = .bracket .closing

/-- Tokens that complete an expression begin with one of the grammar. -/
theorem Completes.exists_derives {depth : Nat} {tokens : List Token}
    (h : Completes depth false tokens) : ∃ first rest, tokens = first ++ rest ∧
      Derives .expression first ∧ Completes depth true rest ∧ Stops rest := by
  -- Strong induction on the length: what follows a bracket or an operator is shorter.
  induction hn : tokens.length using Nat.strongRecOn generalizing depth tokens with
  | ind n ih =>
    obtain ⟨operand, rest, rfl, hne, hoperand, hrest⟩ : ∃ operand rest, tokens = operand ++ rest ∧
        operand ≠ [] ∧ Derives .operand operand ∧ Completes depth true rest := by
      cases h with
      | number m h => exact ⟨[.number m], _, rfl, by simp, .number m, h⟩
      | named name h => exact ⟨[.variable name], _, rfl, by simp, .named name, h⟩
      | opening h =>
        obtain ⟨inner, rest, rfl, hinner, hrest, hstops⟩ := ih _ (by simp [← hn]) h rfl
        cases hrest with
        | closing hrest =>
          exact ⟨.bracket .opening :: inner ++ [.bracket .closing], _, by simp, by simp,
            .bracketed hinner, hrest⟩
        | operator o _ =>
          have hbracket := hstops (.operator o) (by simp)
          contradiction
    cases hrest with
    | nil => exact ⟨operand, [], rfl, .single hoperand, .nil, by simp [Stops]⟩
    | closing hafter =>
      exact ⟨operand, _, rfl, .single hoperand, .closing hafter, by simp [Stops]⟩
    | @operator _ tokens o hafter =>
      have hlength : tokens.length < n := by
        simp only [List.length_append, List.length_cons] at hn
        omega
      obtain ⟨inner, rest, rfl, hinner, hrest, hstops⟩ := ih _ hlength hafter rfl
      exact ⟨operand ++ .operator o :: inner, rest, by simp, .joined hoperand o hinner, hrest,
        hstops⟩

/-- **The grammar derives** exactly the tokens that complete an expression. -/
theorem completes_iff_derives {tokens : List Token} :
    Completes 0 false tokens ↔ Derives .expression tokens := by
  constructor
  · intro h
    obtain ⟨first, rest, rfl, hfirst, hrest, hstops⟩ := h.exists_derives
    cases hrest with
    | nil => rwa [List.append_nil]
    | operator o _ =>
      have hbracket := hstops (.operator o) (by simp)
      contradiction
  · intro h
    have hcompletes := h.completes .nil
    rwa [List.append_nil] at hcompletes

end Worksheet
