import Worksheet.Proofs.Formula.Evaluation
import Worksheet.Proofs.Name.Policy

/-!
# Which texts are formulas

A text is read as a formula in two steps: its pieces have to be acceptable one by one, and the
tokens that they stand for have to be an expression of the grammar.

* `tokensOf_eq_ok_iff`: the first step.
* `completes_respell_iff`: how variables are spelt makes no difference to the second.
* `parse_iff_derives`: both steps, and the tokens of the formula that is read.
-/

namespace Worksheet

/-! ## Pieces and their tokens -/

/-- The token that a piece stands for as it is written; blanks stand for none, and neither does
what is no token. -/
def Piece.token? : Piece → Option Token
  | .lexeme (.bracket b) => some (.bracket b)
  | .lexeme (.operator o) => some (.operator o)
  | .lexeme (.word w) => some (.variable (String.ofList w))
  | .lexeme (.numeral n) => n.magnitude?.map .number
  | .blank _ => none
  | .stray _ => none

/-- No stray text, no number beyond the finite ones, and words whose spelling under the policy is
an identifier that the policy accepts. -/
def Piece.Acceptable (policy : NamePolicy) : Piece → Prop
  | .stray _ => False
  | .lexeme (.numeral n) => ∃ m, n.magnitude? = some m
  | .lexeme (.word w) =>
    Name.isIdentifier (policy.normalize (String.ofList w)) = true ∧
      policy.accepts (policy.normalize (String.ofList w)) = true
  | _ => True

/-- A variable in another spelling, and any other token as it is. -/
def Token.respell (normalize : String → String) : Token → Token
  | .variable name => .variable (normalize name)
  | token => token

namespace Formula

variable {policy : NamePolicy} {index : Nat}

/-- An acceptable lexeme stands for a token. -/
theorem exists_token_of_acceptable {l : Lexeme} (h : (Piece.lexeme l).Acceptable policy) :
    ∃ token, (Piece.lexeme l).token? = some token := by
  cases l with
  | bracket b => exact ⟨_, rfl⟩
  | operator o => exact ⟨_, rfl⟩
  | word w => exact ⟨_, rfl⟩
  | numeral n =>
    obtain ⟨m, hm⟩ := h
    exact ⟨.number m, by rw [Piece.token?, hm, Option.map_some]⟩

theorem tokenOf_eq_ok_iff {l : Lexeme} {token : Token} :
    tokenOf policy index l = .ok token ↔ (Piece.lexeme l).Acceptable policy ∧
      ∃ t, (Piece.lexeme l).token? = some t ∧ t.respell policy.normalize = token := by
  cases l with
  | bracket b => simp [tokenOf, Piece.Acceptable, Piece.token?, Token.respell]
  | operator o => simp [tokenOf, Piece.Acceptable, Piece.token?, Token.respell]
  | word w =>
    rw [tokenOf, Piece.Acceptable, ← Bool.and_eq_true, ← NamePolicy.legal]
    by_cases hlegal : policy.legal (policy.normalize (String.ofList w)) = true
    · have hname : policy.canonical? (String.ofList w) =
          some (policy.normalize (String.ofList w)) :=
        NamePolicy.canonical?_eq_some_iff.mpr ⟨rfl, hlegal⟩
      simp [hname, hlegal, Piece.token?, Token.respell]
    · have hname : policy.canonical? (String.ofList w) = none := by
        rw [NamePolicy.canonical?, if_neg hlegal]
      simp [hname, hlegal]
  | numeral n =>
    cases hm : n.magnitude? with
    | none => simp [tokenOf, hm, Piece.Acceptable]
    | some m => simp [tokenOf, hm, Piece.Acceptable, Piece.token?, Token.respell]

theorem tokensOf_lexeme_eq_ok_iff {l : Lexeme} {pieces : List Piece} {tokens : List Token} :
    tokensOf policy index (.lexeme l :: pieces) = .ok tokens ↔ ∃ token rest,
      tokenOf policy index l = .ok token ∧ tokensOf policy (index + 1) pieces = .ok rest ∧
        token :: rest = tokens := by
  rw [tokensOf]
  cases tokenOf policy index l with
  | error e => simp [bind, Except.bind]
  | ok token =>
    cases tokensOf policy (index + 1) pieces with
    | error e => simp [bind, Except.bind]
    | ok rest => simp [bind, Except.bind, pure, Except.pure]

/-- **The tokens of pieces**: each piece has to be acceptable, and then gives its token, a variable
in its spelling under the policy. -/
theorem tokensOf_eq_ok_iff {pieces : List Piece} {tokens : List Token} :
    tokensOf policy index pieces = .ok tokens ↔ (∀ piece ∈ pieces, piece.Acceptable policy) ∧
      (pieces.filterMap Piece.token?).map (Token.respell policy.normalize) = tokens := by
  induction pieces generalizing index tokens with
  | nil => simp [tokensOf]
  | cons piece pieces ih =>
    cases piece with
    | blank text =>
      have hblank : (Piece.blank text).Acceptable policy := trivial
      rw [tokensOf, ih, List.forall_mem_cons, List.filterMap_cons_none rfl, and_iff_right hblank]
    | stray text =>
      have hstray : ¬ (Piece.stray text).Acceptable policy := id
      simp [tokensOf, hstray]
    | lexeme l =>
      rw [tokensOf_lexeme_eq_ok_iff, List.forall_mem_cons]
      constructor
      · rintro ⟨token, rest, htoken, hrest, rfl⟩
        obtain ⟨hl, t, ht, rfl⟩ := tokenOf_eq_ok_iff.mp htoken
        obtain ⟨hpieces, rfl⟩ := ih.mp hrest
        exact ⟨⟨hl, hpieces⟩, by rw [List.filterMap_cons_some ht, List.map_cons]⟩
      · rintro ⟨⟨hl, hpieces⟩, rfl⟩
        obtain ⟨t, ht⟩ := exists_token_of_acceptable hl
        refine ⟨_, _, tokenOf_eq_ok_iff.mpr ⟨hl, t, ht, rfl⟩, ih.mpr ⟨hpieces, rfl⟩, ?_⟩
        rw [List.filterMap_cons_some ht, List.map_cons]

/-! ## The spelling of variables -/

section Respell

variable (normalize : String → String) (token : Token)

theorem startsValue_respell : (token.respell normalize).startsValue = token.startsValue := by
  cases token <;> rfl

theorem endsValue_respell : (token.respell normalize).endsValue = token.endsValue := by
  cases token <;> rfl

theorem opens_respell : (token.respell normalize).opens = token.opens := by
  cases token <;> rfl

theorem closes_respell : (token.respell normalize).closes = token.closes := by
  cases token <;> rfl

/-- Whether tokens are an expression does not depend on how variables are spelt. -/
theorem completes_respell_iff {depth : Nat} {ended : Bool} {tokens : List Token} :
    Completes depth ended (tokens.map (Token.respell normalize)) ↔
      Completes depth ended tokens := by
  induction tokens generalizing depth ended with
  | nil => rfl
  | cons token tokens ih =>
    rw [List.map_cons, completes_cons_iff, completes_cons_iff, ih, startsValue_respell,
      endsValue_respell, opens_respell, closes_respell]

end Respell

/-! ## Reading a formula -/

/-- Formulas with the same tokens are the same. -/
theorem eq_of_tokens {f g : Formula} (h : f.tokens = g.tokens) : f = g := by
  obtain ⟨tokens, harranged, hnamed⟩ := f
  obtain rfl : tokens = g.tokens := h
  rfl

theorem parse_eq_ok_iff {text : String} {f : Formula} :
    parse policy text = .ok f ↔ tokensOf policy 0 (Piece.scan text.toList) = .ok f.tokens := by
  unfold parse
  split
  · rename_i e he
    simp [he]
  · rename_i tokens htokens
    have hsame : tokensOf policy 0 (Piece.scan text.toList) = .ok f.tokens ↔ tokens = f.tokens := by
      rw [htokens, Except.ok.injEq]
    rw [hsame]
    split
    · rename_i e he
      have hne : tokens ≠ f.tokens := by
        rintro rfl
        rw [f.arranged] at he
        contradiction
      simp [hne]
    · rw [Except.ok.injEq]
      exact ⟨fun h => congrArg Formula.tokens h, fun h => eq_of_tokens h⟩

/-- The tokens of a text as they are written. -/
def written (text : String) : List Token := (Piece.scan text.toList).filterMap Piece.token?

/-- **A text is a formula** exactly when its pieces are acceptable and the grammar derives their
tokens. The formula has these tokens, in its own spelling of variables, and one tree. -/
theorem parse_iff_derives (policy : NamePolicy) (text : String) :
    ((∃ f, parse policy text = .ok f) ↔
      (∀ piece ∈ Piece.scan text.toList, piece.Acceptable policy) ∧
        Derives .expression (written text)) ∧
    ∀ f, parse policy text = .ok f →
      f.tokens = (written text).map (Token.respell policy.normalize) ∧
        (∃! e, Spells .sum e (written text)) ∧ ∃! e, Spells .sum e f.tokens := by
  have hread : ∀ f, parse policy text = .ok f →
      (∀ piece ∈ Piece.scan text.toList, piece.Acceptable policy) ∧
        Derives .expression (written text) ∧
          f.tokens = (written text).map (Token.respell policy.normalize) := by
    intro f hf
    obtain ⟨hpieces, htokens⟩ := tokensOf_eq_ok_iff.mp (parse_eq_ok_iff.mp hf)
    have hcompletes := Arrangement.fault?_eq_none_iff.mp f.arranged
    rw [← htokens, completes_respell_iff] at hcompletes
    exact ⟨hpieces, completes_iff_derives.mp hcompletes, htokens.symm⟩
  refine ⟨⟨?_, ?_⟩, ?_⟩
  · rintro ⟨f, hf⟩
    obtain ⟨hpieces, hderives, -⟩ := hread f hf
    exact ⟨hpieces, hderives⟩
  · rintro ⟨hpieces, hderives⟩
    have htokens : tokensOf policy 0 (Piece.scan text.toList) =
        .ok ((written text).map (Token.respell policy.normalize)) :=
      tokensOf_eq_ok_iff.mpr ⟨hpieces, rfl⟩
    have hcompletes := completes_iff_derives.mpr hderives
    rw [← completes_respell_iff policy.normalize] at hcompletes
    exact ⟨⟨_, Arrangement.fault?_eq_none_iff.mpr hcompletes,
      fun _ => isIdentifier_of_tokensOf htokens⟩, parse_eq_ok_iff.mpr htokens⟩
  · intro f hf
    obtain ⟨-, hderives, htokens⟩ := hread f hf
    obtain ⟨e, he⟩ := hderives.exists_spells
    obtain ⟨e', he'⟩ := f.exists_spells
    exact ⟨htokens, ⟨e, he, fun _ h => he.unique h⟩, ⟨e', he', fun _ h => he'.unique h⟩⟩

theorem parse_iff_derives_capitals :
    ∃ f, parse ⟨String.toUpper, fun _ => true⟩ " a1*(b +.50)" = .ok f ∧
      f.tokens = (written " a1*(b +.50)").map (Token.respell String.toUpper) ∧
        (∃! e, Spells .sum e (written " a1*(b +.50)")) ∧ ∃! e, Spells .sum e f.tokens := by
  have hread : (parse ⟨String.toUpper, fun _ => true⟩ " a1*(b +.50)").isOk = true := by
    decide +kernel
  cases hparse : parse ⟨String.toUpper, fun _ => true⟩ " a1*(b +.50)" with
  | error e =>
    rw [hparse] at hread
    contradiction
  | ok f => exact ⟨f, rfl, (parse_iff_derives _ _).2 f hparse⟩

end Formula

end Worksheet
