import Worksheet.Proofs.Formula.Rereading

/-!
# Where a text stops being a formula

A text that is no formula is refused at its first piece that is not acceptable by itself, or else
for the arrangement of its tokens. Of two neighbours that cannot stand together, and of a closing
bracket without an opening one, the error tells the index: up to there some formula begins so, and
with the next token none does.

`LeadsTo` says in which situation tokens leave the reader, by what completes an expression from
there. Every situation can be completed, so tokens begin an expression as long as they lead to one.

* `tokensOf_eq_error_iff`: a piece is refused, with its index.
* `misarranged_of_faultAfter?`: what the walk through the tokens reports.
* `errors_point_at_the_fault`: the two together, for the text.
-/

namespace Worksheet

/-! ## What an error says -/

/-- Blanks are no token, and they are not counted. -/
def Piece.isSolid : Piece → Bool
  | .blank _ => false
  | _ => true

/-- The piece is not acceptable by itself; the error names it, and its index. -/
inductive Piece.RefusedAs (policy : NamePolicy) (index : Nat) : Piece → ParseError → Prop
  | stray (text : List Char) :
      RefusedAs policy index (.stray text) (.strayText index (String.ofList text))
  | number (n : Number.Numeral) (h : n.magnitude? = none) :
      RefusedAs policy index (.lexeme (.numeral n)) (.numberOutOfRange index (String.ofList n.text))
  | name (w : List Char) (h : ¬ (Name.isIdentifier (policy.normalize (String.ofList w)) = true ∧
        policy.accepts (policy.normalize (String.ofList w)) = true)) :
      RefusedAs policy index (.lexeme (.word w)) (.refusedName index (String.ofList w))

/-- The error is about the first of the pieces that is not acceptable; the pieces are counted from
`index`. -/
def FirstRefused (policy : NamePolicy) (index : Nat) (pieces : List Piece) (e : ParseError) :
    Prop :=
  ∃ before piece after, pieces = before ++ piece :: after ∧
    (∀ p ∈ before, p.Acceptable policy) ∧ piece.RefusedAs policy (index + before.length) e

/-- Some formula begins with the tokens. -/
def Begins (tokens : List Token) : Prop := ∃ f : Formula, tokens <+: f.tokens

/-- No expression of the grammar begins with the tokens. -/
def Stuck (tokens : List Token) : Prop := ∀ more, ¬ Derives .expression (tokens ++ more)

/-- What the error says of the arrangement of tokens. -/
inductive Misarranged : List Token → ParseError → Prop
  | noTokens : Misarranged [] .noTokens
  | badStart {token : Token} {rest : List Token} (h : Stuck [token]) :
      Misarranged (token :: rest) (.badStart (String.ofList token.text))
  /-- No expression ends with the last token. -/
  | badEnd {before : List Token} {token : Token}
      (h : ∀ start, ¬ Derives .expression (start ++ [token])) :
      Misarranged (before ++ [token]) (.badEnd (String.ofList token.text))
  /-- The tokens go wrong where `token` follows `previous`. -/
  | misplaced {before rest : List Token} {previous token : Token}
      (hbegins : Begins (before ++ [previous])) (hstuck : Stuck (before ++ [previous, token])) :
      Misarranged (before ++ previous :: token :: rest)
        (.misplaced (before.length + 1) (String.ofList token.text) (String.ofList previous.text))
  /-- The tokens go wrong at a closing bracket. -/
  | unopened {before rest : List Token} (hbegins : Begins before)
      (hstuck : Stuck (before ++ [.bracket .closing])) :
      Misarranged (before ++ .bracket .closing :: rest) (.unopened before.length)
  /-- Only closing brackets are missing, at the end. -/
  | unclosed {tokens : List Token} {opened closed : Nat}
      (hopened : tokens.count (.bracket .opening) = opened)
      (hclosed : tokens.count (.bracket .closing) = closed) (hlt : closed < opened)
      (h : Derives .expression (tokens ++ List.replicate (opened - closed) (.bracket .closing))) :
      Misarranged tokens (.unclosed opened closed)

/-! ## Pieces -/

section Pieces

variable {policy : NamePolicy} {index : Nat} {e : ParseError} {pieces : List Piece}

theorem Piece.RefusedAs.not_acceptable {piece : Piece} (h : piece.RefusedAs policy index e) :
    ¬ piece.Acceptable policy := by
  cases h with
  | stray text => exact id
  | number n h =>
    rintro ⟨m, hm⟩
    rw [h] at hm
    contradiction
  | name w h => exact h

theorem not_firstRefused_nil : ¬ FirstRefused policy index [] e := by
  rintro ⟨before, piece, after, hsplit, -⟩
  simp at hsplit

/-- The first piece is refused, or it is acceptable and a later one is the first. -/
theorem firstRefused_cons_iff {piece : Piece} :
    FirstRefused policy index (piece :: pieces) e ↔ piece.RefusedAs policy index e ∨
      piece.Acceptable policy ∧ FirstRefused policy (index + 1) pieces e := by
  constructor
  · rintro ⟨before, refused, after, hsplit, hbefore, hrefused⟩
    cases before with
    | nil =>
      obtain ⟨rfl, rfl⟩ := List.cons.inj hsplit
      exact Or.inl hrefused
    | cons first before =>
      obtain ⟨rfl, rfl⟩ := List.cons.inj hsplit
      obtain ⟨hfirst, hbefore⟩ := List.forall_mem_cons.mp hbefore
      rw [List.length_cons, Nat.add_comm before.length 1, ← Nat.add_assoc] at hrefused
      exact Or.inr ⟨hfirst, before, refused, after, rfl, hbefore, hrefused⟩
  · rintro (hrefused | ⟨hfirst, before, refused, after, rfl, hbefore, hrefused⟩)
    · exact ⟨[], piece, pieces, rfl, List.forall_mem_nil _, hrefused⟩
    · refine ⟨piece :: before, refused, after, rfl, List.forall_mem_cons.mpr ⟨hfirst, hbefore⟩, ?_⟩
      rwa [List.length_cons, Nat.add_comm before.length 1, ← Nat.add_assoc]

namespace Formula

theorem tokenOf_eq_error_iff {l : Lexeme} :
    tokenOf policy index l = .error e ↔ (Piece.lexeme l).RefusedAs policy index e := by
  constructor
  · intro h
    cases l with
    | bracket b => contradiction
    | operator o => contradiction
    | word w =>
      rw [tokenOf] at h
      split at h
      · contradiction
      · rename_i hnone
        obtain rfl := Except.error.inj h
        refine .name w ?_
        rw [← Bool.and_eq_true, ← NamePolicy.legal]
        intro hlegal
        rw [NamePolicy.canonical?, if_pos hlegal] at hnone
        contradiction
    | numeral n =>
      rw [tokenOf] at h
      split at h
      · contradiction
      · rename_i hnone
        obtain rfl := Except.error.inj h
        exact .number n hnone
  · intro h
    cases h with
    | number n h => rw [tokenOf, h]
    | name w h =>
      rw [← Bool.and_eq_true, ← NamePolicy.legal] at h
      rw [tokenOf, NamePolicy.canonical?, if_neg h]

theorem exists_tokenOf_iff {l : Lexeme} :
    (∃ token, tokenOf policy index l = .ok token) ↔ (Piece.lexeme l).Acceptable policy := by
  constructor
  · rintro ⟨token, htoken⟩
    exact (tokenOf_eq_ok_iff.mp htoken).1
  · intro h
    obtain ⟨token, htoken⟩ := exists_token_of_acceptable h
    exact ⟨_, tokenOf_eq_ok_iff.mpr ⟨h, token, htoken, rfl⟩⟩

theorem tokensOf_lexeme_eq_error_iff {l : Lexeme} :
    tokensOf policy index (.lexeme l :: pieces) = .error e ↔ tokenOf policy index l = .error e ∨
      (∃ token, tokenOf policy index l = .ok token) ∧
        tokensOf policy (index + 1) pieces = .error e := by
  rw [tokensOf]
  cases tokenOf policy index l with
  | error e => simp [bind, Except.bind]
  | ok token =>
    cases tokensOf policy (index + 1) pieces with
    | error e => simp [bind, Except.bind]
    | ok rest => simp [bind, Except.bind, pure, Except.pure]

/-- **A piece is refused** exactly when it is the first that is not acceptable. -/
theorem tokensOf_eq_error_iff : tokensOf policy index pieces = .error e ↔
    FirstRefused policy index (pieces.filter Piece.isSolid) e := by
  induction pieces generalizing index with
  | nil => exact iff_of_false (by simp [tokensOf]) not_firstRefused_nil
  | cons piece pieces ih =>
    cases piece with
    | blank text => exact ih
    | stray text =>
      rw [tokensOf, List.filter_cons_of_pos rfl, firstRefused_cons_iff]
      constructor
      · intro h
        obtain rfl := Except.error.inj h
        exact Or.inl (.stray text)
      · rintro (hrefused | ⟨hstray, -⟩)
        · cases hrefused
          rfl
        · exact hstray.elim
    | lexeme l =>
      rw [tokensOf_lexeme_eq_error_iff, List.filter_cons_of_pos rfl, firstRefused_cons_iff,
        tokenOf_eq_error_iff, exists_tokenOf_iff, ih]

end Formula

end Pieces

/-! ## Situations -/

/-- After the tokens, `depth` brackets are open, and a value has just ended or is wanted: what
completes an expression after them is what does so from there. -/
def LeadsTo (tokens : List Token) (depth : Nat) (ended : Bool) : Prop :=
  ∀ more, Completes 0 false (tokens ++ more) ↔ Completes depth ended more

section Situations

variable {tokens : List Token} {token : Token} {depth : Nat} {ended : Bool}

theorem leadsTo_nil : LeadsTo [] 0 false := fun _ => Iff.rfl

/-- A token that fits leads on. -/
theorem LeadsTo.concat (h : LeadsTo tokens depth ended) (hstarts : token.startsValue = !ended)
    (hcloses : token.closes ≤ depth + token.opens) :
    LeadsTo (tokens ++ [token]) (depth + token.opens - token.closes) token.endsValue := by
  intro more
  rw [List.append_assoc, List.singleton_append, h, completes_cons_iff]
  simp [hstarts, hcloses]

/-- After a token that does not fit, nothing completes an expression. -/
theorem LeadsTo.stuck (h : LeadsTo tokens depth ended)
    (hmisfit : token.startsValue = (!ended) → depth + token.opens < token.closes) :
    Stuck (tokens ++ [token]) := by
  intro more hderives
  rw [← completes_iff_derives, List.append_assoc, List.singleton_append, h,
    completes_cons_iff] at hderives
  obtain ⟨hstarts, hcloses, -⟩ := hderives
  exact absurd (hmisfit hstarts) (Nat.not_lt_of_le hcloses)

/-- Closing brackets complete an expression after a value. -/
theorem completes_replicate (depth : Nat) :
    Completes depth true (List.replicate depth (.bracket .closing)) := by
  induction depth with
  | zero => exact .nil
  | succ depth ih => exact .closing ih

/-- Every situation can be completed, without any further name. -/
theorem exists_completes (depth : Nat) (ended : Bool) :
    ∃ more, Completes depth ended more ∧ ∀ name, .variable name ∉ more := by
  have hclosing : ∀ name, .variable name ∉ List.replicate depth (Token.bracket .closing) :=
    by simp
  cases ended with
  | true => exact ⟨_, completes_replicate depth, hclosing⟩
  | false =>
    exact ⟨.number .zero :: _, .number .zero (completes_replicate depth), by simp⟩

/-- **Some formula begins with tokens** that lead to a situation. -/
theorem LeadsTo.begins (h : LeadsTo tokens depth ended)
    (hnamed : ∀ name, .variable name ∈ tokens → Name.isIdentifier name = true) : Begins tokens := by
  obtain ⟨more, hmore, hnames⟩ := exists_completes depth ended
  have harranged := Arrangement.fault?_eq_none_iff.mpr ((h more).mpr hmore)
  refine ⟨⟨tokens ++ more, harranged, fun name hname => ?_⟩, List.prefix_append tokens more⟩
  rcases List.mem_append.mp hname with hname | hname
  · exact hnamed name hname
  · exact absurd hname (hnames name)

/-- An expression ends with a token that a value can end with. -/
theorem Completes.endsValue_of_append (h : Completes depth ended (tokens ++ [token])) :
    token.endsValue = true := by
  induction tokens generalizing depth ended with
  | nil =>
    obtain ⟨-, -, hnil⟩ := completes_cons_iff.mp h
    exact (completes_nil_iff.mp hnil).2
  | cons first tokens ih => exact ih (completes_cons_iff.mp h).2.2

end Situations

/-! ## The walk through the tokens -/

namespace Arrangement

theorem count_opening_concat (tokens : List Token) (token : Token) :
    (tokens ++ [token]).count (.bracket .opening) =
      tokens.count (.bracket .opening) + token.opens := by
  simp [List.count_append, List.count_singleton, Token.opens]

theorem count_closing_concat (tokens : List Token) (token : Token) :
    (tokens ++ [token]).count (.bracket .closing) =
      tokens.count (.bracket .closing) + token.closes := by
  simp [List.count_append, List.count_singleton, Token.closes]

/-- Only a closing bracket can close more than it opens. -/
theorem eq_closing_of_lt {token : Token} {opened closed : Nat} (hle : closed ≤ opened)
    (h : opened + token.opens < closed + token.closes) : token = .bracket .closing := by
  by_contra hne
  rw [Token.closes, if_neg hne] at h
  omega

/-- What the walk knows when it has come to `previous`: where the tokens lead to, and how many
brackets are among them. -/
structure Walked (before : List Token) (previous : Token) (opened closed : Nat) : Prop where
  leadsTo : LeadsTo (before ++ [previous]) (opened - closed) previous.endsValue
  opened_eq : (before ++ [previous]).count (.bracket .opening) = opened
  closed_eq : (before ++ [previous]).count (.bracket .closing) = closed
  closed_le : closed ≤ opened

variable {before rest : List Token} {previous token : Token} {opened closed : Nat} {e : ParseError}

theorem walked_first (h : token.startsValue = true) : Walked [] token token.opens token.closes where
  leadsTo := by
    have hleads := leadsTo_nil.concat h (by rw [closes_eq_zero h]; exact Nat.zero_le _)
    rwa [Nat.zero_add] at hleads
  opened_eq := by rw [count_opening_concat, List.count_nil, Nat.zero_add]
  closed_eq := by rw [count_closing_concat, List.count_nil, Nat.zero_add]
  closed_le := by rw [closes_eq_zero h]; exact Nat.zero_le _

/-- One token of the walk. -/
theorem Walked.step (h : Walked before previous opened closed)
    (hle : closed + token.closes ≤ opened + token.opens)
    (hstarts : token.startsValue = !previous.endsValue) :
    Walked (before ++ [previous]) token (opened + token.opens) (closed + token.closes) where
  leadsTo := by
    have hclosed := h.closed_le
    have hleads := h.leadsTo.concat hstarts (by omega)
    have hdepth : opened - closed + token.opens - token.closes =
        opened + token.opens - (closed + token.closes) := by omega
    rwa [hdepth] at hleads
  opened_eq := by rw [count_opening_concat, h.opened_eq]
  closed_eq := by rw [count_closing_concat, h.closed_eq]
  closed_le := hle

/-- **What the walk reports** is where the tokens go wrong. -/
theorem misarranged_of_faultAfter? (h : Walked before previous opened closed)
    (hnamed : ∀ name, .variable name ∈ before ++ previous :: rest → Name.isIdentifier name = true)
    (hlast : (rest.getLastD previous).endsValue = true)
    (hfault : faultAfter? previous (before.length + 1) opened closed rest = some e) :
    Misarranged (before ++ previous :: rest) e := by
  induction rest generalizing before previous opened closed with
  | nil =>
    unfold faultAfter? at hfault
    split at hfault
    · contradiction
    · rename_i hne
      obtain rfl := Option.some.inj hfault
      have hlt : closed < opened := Nat.lt_of_le_of_ne h.closed_le (Ne.symm hne)
      refine .unclosed h.opened_eq h.closed_eq hlt ?_
      rw [← completes_iff_derives, h.leadsTo]
      rw [List.getLastD_nil] at hlast
      rw [hlast]
      exact completes_replicate (opened - closed)
  | cons token rest ih =>
    have hsplit : before ++ previous :: token :: rest = before ++ [previous] ++ token :: rest :=
      List.append_cons before previous (token :: rest)
    have hbegins : Begins (before ++ [previous]) := by
      refine h.leadsTo.begins fun name hname => hnamed name ?_
      rw [hsplit]
      exact List.mem_append_left _ hname
    unfold faultAfter? at hfault
    split at hfault
    · rename_i hlt
      obtain rfl := Option.some.inj hfault
      obtain rfl := eq_closing_of_lt h.closed_le hlt
      have hclosed := h.closed_le
      have hstuck : Stuck (before ++ [previous] ++ [.bracket .closing]) :=
        h.leadsTo.stuck fun _ => by omega
      have hindex : before.length + 1 = (before ++ [previous]).length := by simp
      rw [hsplit, hindex]
      exact .unopened hbegins hstuck
    · split at hfault
      · rename_i hfollow
        obtain rfl := Option.some.inj hfault
        rw [Bool.not_eq_true', ← Bool.not_eq_true, canFollow_iff] at hfollow
        have hstuck : Stuck (before ++ [previous] ++ [token]) :=
          h.leadsTo.stuck fun hstarts => absurd hstarts hfollow
        rw [List.append_assoc] at hstuck
        exact .misplaced hbegins hstuck
      · rename_i hle hfollow
        rw [Bool.not_eq_true', Bool.not_eq_false, canFollow_iff] at hfollow
        rw [hsplit] at hnamed ⊢
        refine ih (h.step (Nat.le_of_not_lt hle) hfollow) hnamed ?_ ?_
        · rwa [List.getLastD_cons] at hlast
        · rwa [List.length_append]

/-- What is reported of the arrangement of tokens. -/
theorem misarranged_of_fault? {tokens : List Token}
    (hnamed : ∀ name, .variable name ∈ tokens → Name.isIdentifier name = true)
    (hfault : fault? tokens = some e) : Misarranged tokens e := by
  cases tokens with
  | nil =>
    obtain rfl := Option.some.inj hfault
    exact .noTokens
  | cons first rest =>
    unfold fault? at hfault
    dsimp only at hfault
    split at hfault
    · rename_i hfirst
      obtain rfl := Option.some.inj hfault
      rw [Bool.not_eq_true', ← Bool.not_eq_true] at hfirst
      exact .badStart (leadsTo_nil.stuck fun hstarts => absurd hstarts hfirst)
    · rename_i hfirst
      rw [Bool.not_eq_true', Bool.not_eq_false] at hfirst
      split at hfault
      · rename_i hlast
        obtain rfl := Option.some.inj hfault
        rw [Bool.not_eq_true', ← Bool.not_eq_true] at hlast
        have hsplit : first :: rest = (first :: rest).dropLast ++ [rest.getLastD first] := by
          rw [← List.getLast_eq_getLastD (List.cons_ne_nil first rest),
            List.dropLast_append_getLast]
        rw [hsplit]
        refine .badEnd fun start hderives => hlast ?_
        exact (completes_iff_derives.mpr hderives).endsValue_of_append
      · rename_i hlast
        rw [Bool.not_eq_true', Bool.not_eq_false] at hlast
        exact misarranged_of_faultAfter? (walked_first hfirst) hnamed hlast hfault

end Arrangement

/-! ## The whole text -/

namespace Formula

/-- The pieces of a text that are counted. -/
def solidPieces (text : String) : List Piece := (Piece.scan text.toList).filter Piece.isSolid

theorem forall_acceptable_iff {policy : NamePolicy} {pieces : List Piece} :
    (∀ piece ∈ pieces.filter Piece.isSolid, piece.Acceptable policy) ↔
      ∀ piece ∈ pieces, piece.Acceptable policy := by
  constructor
  · intro h piece hpiece
    cases hsolid : piece.isSolid with
    | true => exact h piece (List.mem_filter.mpr ⟨hpiece, hsolid⟩)
    | false =>
      cases piece with
      | blank text => trivial
      | lexeme l => contradiction
      | stray text => contradiction
  · exact fun h piece hpiece => h piece (List.mem_filter.mp hpiece).1

/-- **Errors point at the fault.** Where some piece is not acceptable by itself, the error is about
the first such piece. Otherwise it is about the arrangement of the tokens, of which those before the
one that it points at begin a formula, and with that one they begin no expression; or closing
brackets are missing, as many as it counts. -/
theorem errors_point_at_the_fault (policy : NamePolicy) (text : String) :
    ((∃ piece ∈ solidPieces text, ¬ piece.Acceptable policy) ↔
      ∃ e, parse policy text = .error e ∧ FirstRefused policy 0 (solidPieces text) e) ∧
    ∀ e, parse policy text = .error e → FirstRefused policy 0 (solidPieces text) e ∨
      (∀ piece ∈ solidPieces text, piece.Acceptable policy) ∧
        Misarranged ((written text).map (Token.respell policy.normalize)) e := by
  refine ⟨⟨?_, ?_⟩, ?_⟩
  · rintro ⟨piece, hpiece, hrefused⟩
    cases htokens : tokensOf policy 0 (Piece.scan text.toList) with
    | error e =>
      exact ⟨e, parse_eq_error_iff.mpr (Or.inl htokens), tokensOf_eq_error_iff.mp htokens⟩
    | ok tokens =>
      have hall := forall_acceptable_iff.mpr (tokensOf_eq_ok_iff.mp htokens).1
      exact absurd (hall piece hpiece) hrefused
  · rintro ⟨e, -, before, piece, after, hsplit, -, hrefused⟩
    refine ⟨piece, ?_, hrefused.not_acceptable⟩
    rw [hsplit]
    exact List.mem_append_right before List.mem_cons_self
  · intro e he
    rcases parse_eq_error_iff.mp he with hpieces | ⟨tokens, htokens, hfault⟩
    · exact Or.inl (tokensOf_eq_error_iff.mp hpieces)
    · obtain ⟨hpieces, hwritten⟩ := tokensOf_eq_ok_iff.mp htokens
      rw [written, hwritten]
      exact Or.inr ⟨forall_acceptable_iff.mpr hpieces,
        Arrangement.misarranged_of_fault? (fun _ => isIdentifier_of_tokensOf htokens) hfault⟩

/-- `(a1` may go on, and `(a1 2` may not, whatever comes after it. -/
theorem errors_point_at_the_second_value :
    parse .plain " (a1 2)) )" = .error (.misplaced 2 "2" "a1") ∧
      (FirstRefused .plain 0 (solidPieces " (a1 2)) )") (.misplaced 2 "2" "a1") ∨
        (∀ piece ∈ solidPieces " (a1 2)) )", piece.Acceptable .plain) ∧
          Misarranged ((written " (a1 2)) )").map (Token.respell id)) (.misplaced 2 "2" "a1")) := by
  have hparse : parse .plain " (a1 2)) )" = .error (.misplaced 2 "2" "a1") := by
    decide +kernel
  exact ⟨hparse, (errors_point_at_the_fault .plain " (a1 2)) )").2 _ hparse⟩

end Formula

end Worksheet
