import Std.Data.ExtTreeSet
import Worksheet.Formula.Arrangement
import Worksheet.Formula.Piece
import Worksheet.Name.Policy

/-!
# Formulas

A `Formula` is a sequence of tokens that form an expression, with identifiers as its variables.
`Formula.parse` reads one from a text under a naming policy; its canonical text is the tokens
written without blanks, and two formulas are equal when their canonical texts are.
-/

namespace Worksheet

/-- Tokens that form an expression. -/
structure Formula where
  tokens : List Token
  arranged : Arrangement.fault? tokens = none
  named : ∀ name, Token.variable name ∈ tokens → Name.isIdentifier name
  deriving DecidableEq

namespace Formula

/-- The token that a lexeme stands for: variables under their canonical names, and only numbers
that are finite. -/
def tokenOf (policy : NamePolicy) (index : Nat) : Lexeme → Except ParseError Token
  | .bracket b => .ok (.bracket b)
  | .operator o => .ok (.operator o)
  | .word w =>
    match policy.canonical? (String.ofList w) with
    | some name => .ok (.variable name)
    | none => .error (.refusedName index (String.ofList w))
  | .numeral n =>
    match n.magnitude? with
    | some m => .ok (.number m)
    | none => .error (.numberOutOfRange index (String.ofList n.text))

/-- The tokens of a text's pieces, counted from `index`; blanks are not counted. -/
def tokensOf (policy : NamePolicy) (index : Nat) : List Piece → Except ParseError (List Token)
  | [] => .ok []
  | .blank _ :: pieces => tokensOf policy index pieces
  | .stray text :: _ => .error (.strayText index (String.ofList text))
  | .lexeme l :: pieces => do
    let token ← tokenOf policy index l
    let tokens ← tokensOf policy (index + 1) pieces
    return token :: tokens

theorem exists_canonical?_of_tokenOf {policy : NamePolicy} {index : Nat} {l : Lexeme}
    {name : String} (h : tokenOf policy index l = .ok (.variable name)) :
    ∃ raw, policy.canonical? raw = some name := by
  unfold tokenOf at h
  split at h
  · simp at h
  · simp at h
  · split at h
    · rename_i w _ hn
      simp only [Except.ok.injEq, Token.variable.injEq] at h
      subst h
      exact ⟨_, hn⟩
    · contradiction
  · split at h
    · simp at h
    · contradiction

/-- The variables among the tokens are canonical names. -/
theorem exists_canonical?_of_tokensOf {policy : NamePolicy} {index : Nat} {pieces : List Piece}
    {tokens : List Token} (h : tokensOf policy index pieces = .ok tokens) {name : String}
    (hn : .variable name ∈ tokens) : ∃ raw, policy.canonical? raw = some name := by
  fun_induction tokensOf policy index pieces generalizing tokens with
  | case1 =>
    obtain rfl := Except.ok.inj h
    contradiction
  | case2 _ _ _ ih => exact ih h hn
  | case3 => contradiction
  | case4 index l pieces ih =>
    cases ht : tokenOf policy index l with
    | error e => rw [ht] at h; contradiction
    | ok token =>
      cases hts : tokensOf policy (index + 1) pieces with
      | error e => rw [ht, hts] at h; contradiction
      | ok rest =>
        rw [ht, hts] at h
        obtain rfl := Except.ok.inj h
        rcases List.mem_cons.1 hn with rfl | hn
        · exact exists_canonical?_of_tokenOf ht
        · exact ih hts hn

theorem isIdentifier_of_tokensOf {policy : NamePolicy} {index : Nat} {pieces : List Piece}
    {tokens : List Token} (h : tokensOf policy index pieces = .ok tokens) {name : String}
    (hn : .variable name ∈ tokens) : Name.isIdentifier name := by
  obtain ⟨_, hraw⟩ := exists_canonical?_of_tokensOf h hn
  exact NamePolicy.isIdentifier_of_canonical? hraw

/-- Reads a formula; every variable gets its canonical name under the policy. -/
def parse (policy : NamePolicy) (text : String) : Except ParseError Formula :=
  match ht : tokensOf policy 0 (Piece.scan text.toList) with
  | .error e => .error e
  | .ok tokens =>
    match ha : Arrangement.fault? tokens with
    | some e => .error e
    | none => .ok ⟨tokens, ha, fun _ => isIdentifier_of_tokensOf ht⟩

/-- The canonical text of a formula: its tokens, written without blanks. -/
def text (f : Formula) : String := String.ofList (f.tokens.flatMap Token.text)

instance : ToString Formula := ⟨text⟩

/-- Formulas are compared by their canonical texts. -/
instance : BEq Formula := ⟨fun f g => f.text == g.text⟩

instance : Hashable Formula := ⟨fun f => hash f.text⟩

/-- The variable that a token is. -/
def nameOf? : Token → Option String
  | .variable name => some name
  | _ => none

/-- The variables of a formula, without repetition and in order. -/
def variableNames (f : Formula) : Std.ExtTreeSet String :=
  .ofList (f.tokens.filterMap nameOf?)

end Formula

end Worksheet
