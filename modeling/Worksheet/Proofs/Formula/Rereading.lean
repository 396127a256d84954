import Worksheet.Proofs.Formula.Canonical

/-!
# Reading the text of a formula again

A formula that was read under the plain policy has its variables as they were written. Under another
policy its canonical text is read as the text that it was read from: the words stand at the same
indices, so they are spelt anew or refused in the same way, and everything else is as it was.

* `tokensOf_eq_reread`: pieces that were read plainly are read as their tokens are.
* `parse_text_of_parse`: both texts give the same formula, or the same error.
-/

namespace Worksheet.Formula

variable {policy : NamePolicy} {index : Nat}

/-- Reads a token under a policy: a variable gets its canonical name. -/
def rereadToken (policy : NamePolicy) (index : Nat) : Token → Except ParseError Token
  | .variable name =>
    match policy.canonical? name with
    | some name => .ok (.variable name)
    | none => .error (.refusedName index name)
  | token => .ok token

/-- Reads tokens under a policy, counted from `index`. -/
def reread (policy : NamePolicy) (index : Nat) : List Token → Except ParseError (List Token)
  | [] => .ok []
  | token :: tokens => do
    let token ← rereadToken policy index token
    let tokens ← reread policy (index + 1) tokens
    return token :: tokens

/-- A lexeme that was read plainly is read as its token is. -/
theorem tokenOf_eq_reread {l : Lexeme} {token : Token}
    (h : tokenOf .plain index l = .ok token) :
    tokenOf policy index l = rereadToken policy index token := by
  cases l with
  | bracket b =>
    obtain rfl := Except.ok.inj h
    rfl
  | operator o =>
    obtain rfl := Except.ok.inj h
    rfl
  | word w =>
    rw [tokenOf] at h
    split at h
    · rename_i name hname
      obtain rfl := Except.ok.inj h
      obtain ⟨rfl, -⟩ := NamePolicy.canonical?_eq_some_iff.mp hname
      rfl
    · contradiction
  | numeral n =>
    rw [tokenOf] at h
    split at h
    · rename_i m hm
      obtain rfl := Except.ok.inj h
      rw [tokenOf, hm]
      rfl
    · contradiction

/-- **Pieces that were read plainly are read as their tokens are.** -/
theorem tokensOf_eq_reread {pieces : List Piece} {tokens : List Token}
    (h : tokensOf .plain index pieces = .ok tokens) :
    tokensOf policy index pieces = reread policy index tokens := by
  induction pieces generalizing index tokens with
  | nil =>
    obtain rfl := Except.ok.inj h
    rfl
  | cons piece pieces ih =>
    cases piece with
    | blank text => exact ih h
    | stray text => contradiction
    | lexeme l =>
      obtain ⟨token, rest, htoken, hrest, rfl⟩ := tokensOf_lexeme_eq_ok_iff.mp h
      rw [tokensOf, reread, tokenOf_eq_reread htoken, ih hrest]

theorem parse_eq_error_iff {text : String} {e : ParseError} : parse policy text = .error e ↔
    tokensOf policy 0 (Piece.scan text.toList) = .error e ∨
      ∃ tokens, tokensOf policy 0 (Piece.scan text.toList) = .ok tokens ∧
        Arrangement.fault? tokens = some e := by
  unfold parse
  split
  · rename_i e' he'
    simp [he']
  · rename_i tokens htokens
    split
    · rename_i e' he'
      simp [htokens, he']
    · rename_i hnone
      simp [htokens, hnone]

/-- A text is read by its tokens alone. -/
theorem parse_congr {text text' : String} (h : tokensOf policy 0 (Piece.scan text.toList) =
    tokensOf policy 0 (Piece.scan text'.toList)) : parse policy text = parse policy text' := by
  cases hparse : parse policy text with
  | ok f => rw [eq_comm, parse_eq_ok_iff, ← h, ← parse_eq_ok_iff, hparse]
  | error e => rw [eq_comm, parse_eq_error_iff, ← h, ← parse_eq_error_iff, hparse]

/-- **The canonical text is read as the text that a formula was read from**, under every policy. -/
theorem parse_text_of_parse {text : String} {f : Formula} (h : parse .plain text = .ok f)
    (policy : NamePolicy) : parse policy f.text = parse policy text := by
  have hcanonical : parse .plain f.text = .ok f := parse_text fun _ => canonical?_plain
  refine parse_congr ?_
  rw [tokensOf_eq_reread (parse_eq_ok_iff.mp h), tokensOf_eq_reread (parse_eq_ok_iff.mp hcanonical)]

end Worksheet.Formula
