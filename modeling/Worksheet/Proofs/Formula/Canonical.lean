import Worksheet.Proofs.Formula.Parsing
import Worksheet.Proofs.Name.Identifier
import Worksheet.Proofs.Number.Reading

/-!
# Formulas read back from their text

The tokens of a formula may be written with blanks around them or without: they are cut apart at
the same places, because an operand is never followed by what could go on with it. So the canonical
text of a formula stands for the formula.

* `tokensOf_scan_of_spaced`: spaced tokens are read back, one by one.
* `parse_of_spaced`: so are the tokens of a formula, under any policy that keeps its variables.
* `text_is_faithful`: formulas are equal exactly when their canonical texts are.
-/

namespace Worksheet

open Text (isBlank)
open Name

/-- The text writes the tokens in order, with any blanks before, between and after them. -/
inductive Spaced : List Token → List Char → Prop
  | nil {blanks : List Char} (hblanks : ∀ c ∈ blanks, isBlank c = true) : Spaced [] blanks
  | cons {blanks : List Char} (hblanks : ∀ c ∈ blanks, isBlank c = true) (token : Token)
      {tokens : List Token} {rest : List Char} (hrest : Spaced tokens rest) :
      Spaced (token :: tokens) (blanks ++ (token.text ++ rest))

theorem spaced_flatMap (tokens : List Token) : Spaced tokens (tokens.flatMap Token.text) := by
  have hnone : ∀ c ∈ ([] : List Char), isBlank c = true := by simp
  induction tokens with
  | nil => exact .nil hnone
  | cons token tokens ih => exact .cons hnone token ih

/-! ## Where operands end -/

/-- The characters of identifiers are no brackets and no operators. -/
theorem ofSymbol?_of_continuesIdentifier {c : Char} (h : continuesIdentifier c = true) :
    Lexeme.ofSymbol? c = none := by
  cases hsymbol : Lexeme.ofSymbol? c with
  | none => rfl
  | some l =>
    unfold Lexeme.ofSymbol? at hsymbol
    repeat' split at hsymbol
    all_goals
      subst_vars
      contradiction

/-- A text with which no word and no plain numeral before it goes on. -/
def Breaks (rest : List Char) : Prop := ∀ c ∈ rest.head?, continuesIdentifier c = false ∧ c ≠ '.'

theorem Breaks.ends {rest : List Char} (h : Breaks rest) : Number.Numeral.Ends rest := by
  intro c hc
  obtain ⟨hcontinues, hpoint⟩ := h c hc
  refine ⟨?_, hpoint, ?_, ?_⟩
  · by_contra hdigit
    rw [continuesIdentifier_of_isDigit (Bool.not_eq_false _ ▸ hdigit)] at hcontinues
    contradiction
  · rintro rfl
    contradiction
  · rintro rfl
    contradiction

theorem breaks_of_isBlank {c : Char} (h : isBlank c = true) (rest : List Char) :
    Breaks (c :: rest) := by
  rintro _ ⟨⟩
  constructor
  · by_contra hcontinues
    rw [isBlank_of_continuesIdentifier (Bool.not_eq_false _ ▸ hcontinues)] at h
    contradiction
  · rintro rfl
    contradiction

/-- After an operand comes what does not go on with it. -/
theorem Spaced.breaks {tokens : List Token} {cs : List Char} (h : Spaced tokens cs) {depth : Nat}
    (hcompletes : Completes depth true tokens) : Breaks cs := by
  cases h with
  | nil hblanks =>
    cases cs with
    | nil => simp [Breaks]
    | cons c blanks => exact breaks_of_isBlank (hblanks c List.mem_cons_self) blanks
  | @cons blanks hblanks token tokens rest hrest =>
    cases blanks with
    | cons c blanks => exact breaks_of_isBlank (hblanks c List.mem_cons_self) _
    | nil =>
      cases hcompletes with
      | closing _ =>
        rintro c ⟨⟩
        decide
      | operator o _ =>
        rintro c ⟨⟩
        cases o <;> decide

/-! ## One token -/

theorem Piece.scan_cons {c : Char} {cs rest : List Char} {l : Lexeme} (hc : isBlank c = false)
    (hfirst : Lexeme.first? (c :: cs) = some (l, rest)) :
    scan (c :: cs) = .lexeme l :: scan rest := by
  rw [scan, if_neg (by simp [hc])]
  split
  · rename_i l' rest' h
    rw [hfirst] at h
    obtain ⟨rfl, rfl⟩ := Prod.mk.inj (Option.some.inj h)
    rfl
  · rename_i h
    rw [hfirst] at h
    contradiction

theorem Piece.scan_word {name : String} (h : isIdentifier name = true) {rest : List Char}
    (hrest : Breaks rest) :
    scan (name.toList ++ rest) = .lexeme (.word name.toList) :: scan rest := by
  obtain ⟨c, tail, hname, hc, htail⟩ := exists_cons_of_isIdentifier h
  have hcontinues := continuesIdentifier_of_startsIdentifier hc
  have hstop : ∀ d ∈ rest.head?, continuesIdentifier d = false := fun d hd => (hrest d hd).1
  rw [hname, List.cons_append]
  refine scan_cons (isBlank_of_continuesIdentifier hcontinues) ?_
  rw [Lexeme.first?, ofSymbol?_of_continuesIdentifier hcontinues]
  simp only [hc, if_true, Text.takeWhile_append htail hstop, Text.dropWhile_append htail hstop]

theorem Piece.scan_numeral {n : Number.Numeral} (h : n.Plain) {rest : List Char}
    (hrest : Breaks rest) : scan (n.text ++ rest) = .lexeme (.numeral n) :: scan rest := by
  have hscan := h.scan?_append hrest.ends
  obtain ⟨c, hc, tail, htext⟩ := h.text_eq
  have hdigit := h.whole_digits c hc
  have hcontinues := continuesIdentifier_of_isDigit hdigit
  rw [htext, List.cons_append] at hscan ⊢
  refine scan_cons (isBlank_of_continuesIdentifier hcontinues) ?_
  rw [Lexeme.first?, ofSymbol?_of_continuesIdentifier hcontinues]
  simp [startsIdentifier_of_isDigit hdigit, hscan]

/-- The text of a token is not empty and has no blanks. -/
theorem Token.text_characters {token : Token}
    (htoken : ∀ name, token = .variable name → isIdentifier name = true) :
    token.text ≠ [] ∧ ∀ c ∈ token.text, isBlank c = false := by
  match token with
  | .bracket b =>
    have hsymbol : isBlank b.symbol = false := by cases b <;> rfl
    simp [text, hsymbol]
  | .operator o =>
    have hsymbol : isBlank o.symbol = false := by cases o <;> rfl
    simp [text, hsymbol]
  | .number m =>
    obtain ⟨n, hplain, htext, -⟩ := m.exists_numeral
    obtain ⟨c, -, tail, hhead⟩ := hplain.text_eq
    rw [text, ← htext]
    refine ⟨by simp [hhead], fun c hc => ?_⟩
    obtain hdigit | rfl := hplain.isDigit_or_point hc
    · exact isBlank_of_continuesIdentifier (continuesIdentifier_of_isDigit hdigit)
    · rfl
  | .variable name =>
    have hname := htoken name rfl
    obtain ⟨c, tail, hhead, -⟩ := exists_cons_of_isIdentifier hname
    refine ⟨by simp [text, hhead], fun c hc => ?_⟩
    exact isBlank_of_continuesIdentifier (continuesIdentifier_of_mem hname hc)

namespace Formula

variable {policy : NamePolicy}

/-- **A token is read from its text** where what follows does not go on with it. -/
theorem exists_scan_text {token : Token}
    (htoken : ∀ name, token = .variable name → policy.canonical? name = some name)
    {rest : List Char} (hrest : token.isOperand = true → Breaks rest) :
    ∃ l, Piece.scan (token.text ++ rest) = .lexeme l :: Piece.scan rest ∧
      ∀ index, tokenOf policy index l = .ok token := by
  match token with
  | .bracket b =>
    refine ⟨.bracket b, Piece.scan_cons ?_ ?_, fun index => rfl⟩
    · cases b <;> rfl
    · cases b <;> rfl
  | .operator o =>
    refine ⟨.operator o, Piece.scan_cons ?_ ?_, fun index => rfl⟩
    · cases o <;> rfl
    · cases o <;> rfl
  | .number m =>
    obtain ⟨n, hplain, htext, hvalue⟩ := m.exists_numeral
    refine ⟨.numeral n, ?_, fun index => by rw [tokenOf, hvalue]⟩
    rw [Token.text, ← htext]
    exact Piece.scan_numeral hplain (hrest rfl)
  | .variable name =>
    have hname := htoken name rfl
    refine ⟨.word name.toList, ?_, fun index => by rw [tokenOf, String.ofList_toList, hname]⟩
    exact Piece.scan_word (NamePolicy.isIdentifier_of_canonical? hname) (hrest rfl)

/-! ## All tokens -/

/-- Blanks at the start make no difference. -/
theorem tokensOf_scan_dropWhile (index : Nat) (cs : List Char) :
    tokensOf policy index (Piece.scan (cs.dropWhile isBlank)) =
      tokensOf policy index (Piece.scan cs) := by
  cases cs with
  | nil => rfl
  | cons c cs =>
    by_cases hc : isBlank c = true
    · rw [Piece.scan.eq_def (c :: cs), List.dropWhile_cons_of_pos hc]
      simp only [hc, if_true, tokensOf]
    · rw [List.dropWhile_cons_of_neg hc]

theorem tokensOf_scan_append {blanks : List Char} (h : ∀ c ∈ blanks, isBlank c = true)
    (index : Nat) (cs : List Char) :
    tokensOf policy index (Piece.scan (blanks ++ cs)) =
      tokensOf policy index (Piece.scan cs) := by
  rw [← tokensOf_scan_dropWhile, List.dropWhile_append_of_pos h, tokensOf_scan_dropWhile]

/-- **Spaced tokens are read back** where they complete an expression. -/
theorem tokensOf_scan_of_spaced {tokens : List Token} {cs : List Char} (h : Spaced tokens cs)
    (htokens : ∀ name, .variable name ∈ tokens → policy.canonical? name = some name)
    {depth : Nat} {ended : Bool} (hcompletes : Completes depth ended tokens) (index : Nat) :
    tokensOf policy index (Piece.scan cs) = .ok tokens := by
  induction h generalizing depth ended index with
  | @nil blanks hblanks =>
    rw [← List.append_nil blanks, tokensOf_scan_append hblanks, Piece.scan, tokensOf]
  | @cons blanks hblanks token tokens rest hrest ih =>
    obtain ⟨-, -, hcompletes⟩ := completes_cons_iff.mp hcompletes
    have hbreaks : token.isOperand = true → Breaks rest := by
      intro hoperand
      have hends : token.endsValue = true := by rw [Token.endsValue, hoperand, Bool.true_or]
      rw [hends] at hcompletes
      exact hrest.breaks hcompletes
    have htoken : ∀ name, token = .variable name → policy.canonical? name = some name :=
      fun name hname => htokens name (hname ▸ List.mem_cons_self)
    obtain ⟨l, hscan, hl⟩ := exists_scan_text htoken hbreaks
    have hrest := ih (fun name hname => htokens name (List.mem_cons_of_mem _ hname)) hcompletes
      (index + 1)
    rw [tokensOf_scan_append hblanks, hscan, tokensOf_lexeme_eq_ok_iff]
    exact ⟨token, tokens, hl index, hrest, rfl⟩

variable {f : Formula}

/-- **The tokens of a formula are read back** as the formula, however they are spaced. -/
theorem parse_of_spaced
    (hf : ∀ name, .variable name ∈ f.tokens → policy.canonical? name = some name)
    {cs : List Char} (h : Spaced f.tokens cs) : parse policy (String.ofList cs) = .ok f := by
  rw [parse_eq_ok_iff, String.toList_ofList]
  exact tokensOf_scan_of_spaced h hf (Arrangement.fault?_eq_none_iff.mp f.arranged) 0

theorem canonical?_plain {name : String} (h : .variable name ∈ f.tokens) :
    NamePolicy.plain.canonical? name = some name := by
  have hlegal : NamePolicy.plain.legal name = true := by
    rw [NamePolicy.legal, f.named name h]
    rfl
  exact NamePolicy.canonical?_eq_some_iff.mpr ⟨rfl, hlegal⟩

theorem toList_text (f : Formula) : f.text.toList = f.tokens.flatMap Token.text := by
  rw [text, String.toList_ofList]

/-- The canonical text is not empty and has no blanks. -/
theorem text_characters (f : Formula) :
    f.text.toList ≠ [] ∧ ∀ c ∈ f.text.toList, isBlank c = false := by
  have htokens : ∀ token ∈ f.tokens, token.text ≠ [] ∧ ∀ c ∈ token.text, isBlank c = false :=
    fun token htoken => Token.text_characters fun name hname => f.named name (hname ▸ htoken)
  rw [f.toList_text]
  constructor
  · cases hf : f.tokens with
    | nil =>
      have harranged := f.arranged
      rw [hf] at harranged
      contradiction
    | cons token tokens =>
      have htoken := htokens token (by rw [hf]; exact List.mem_cons_self)
      simp [htoken.1]
  · intro c hc
    obtain ⟨token, htoken, hc⟩ := List.mem_flatMap.mp hc
    exact (htokens token htoken).2 c hc

theorem parse_text (hf : ∀ name, .variable name ∈ f.tokens → policy.canonical? name = some name) :
    parse policy f.text = .ok f :=
  parse_of_spaced hf (spaced_flatMap f.tokens)

/-- Equal formulas are the same. -/
theorem beq_iff {g : Formula} : (f == g) = true ↔ f = g := by
  show (f.text == g.text) = true ↔ f = g
  rw [beq_iff_eq]
  constructor
  · intro htext
    have hf : parse .plain f.text = .ok f := parse_text fun _ => canonical?_plain
    have hg : parse .plain g.text = .ok g := parse_text fun _ => canonical?_plain
    rw [htext, hg] at hf
    exact (Except.ok.inj hf).symm
  · rintro rfl
    rfl

/-- **The canonical text is a faithful code** of a formula: it is the tokens without blanks, and
the tokens with any blanks are read back as the formula. Formulas are equal exactly when their
tokens are, and then have the same variables and values. -/
theorem text_is_faithful (f : Formula) :
    (∀ cs, Spaced f.tokens cs → parse .plain (String.ofList cs) = .ok f) ∧
    (f.text.toList = f.tokens.flatMap Token.text ∧ Spaced f.tokens f.text.toList) ∧
    ∀ g : Formula, ((f == g) = true ↔ f.tokens = g.tokens) ∧
      ((f == g) = true → f.variableNames = g.variableNames ∧
        ∀ lookup, f.evaluate lookup = g.evaluate lookup) := by
  refine ⟨fun cs hcs => parse_of_spaced (fun _ => canonical?_plain) hcs,
    ⟨f.toList_text, ?_⟩, fun g => ?_⟩
  · rw [f.toList_text]
    exact spaced_flatMap f.tokens
  · rw [beq_iff]
    refine ⟨⟨congrArg tokens, eq_of_tokens⟩, ?_⟩
    rintro rfl
    exact ⟨rfl, fun _ => rfl⟩

/-- A formula whose text looks like an exponent where it is none. -/
def minusFive : Formula where
  tokens := [.variable "e", .operator .minus, .number ⟨5 * Nat.pow 2 50, 1024, by decide⟩]
  arranged := by decide
  named := by simp [Name.isIdentifier, Name.identifierChars, startsIdentifier]

theorem minusFive_spaced : minusFive.text = "e-5" ∧ parse .plain " e -\t5" = .ok minusFive := by
  have hfive : ['5'] = Token.text (.number ⟨5 * Nat.pow 2 50, 1024, by decide⟩) := by
    decide +kernel
  have hspaced : Spaced minusFive.tokens
      ([' '] ++ ("e".toList ++ ([' '] ++ (['-'] ++ (['\t'] ++ (['5'] ++ [])))))) := by
    rw [hfive]
    have hspace : ∀ c ∈ [' '], isBlank c = true := List.forall_mem_singleton.mpr rfl
    have htab : ∀ c ∈ ['\t'], isBlank c = true := List.forall_mem_singleton.mpr rfl
    exact .cons hspace _ (.cons hspace _ (.cons htab _ (.nil (by simp))))
  exact ⟨by decide +kernel, (text_is_faithful minusFive).1 _ hspaced⟩

end Formula

end Worksheet
