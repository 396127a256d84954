import Worksheet.Proofs.Formula.Fault
import Worksheet.Proofs.Formula.LexemePattern

/-!
# How a text is cut

A search from the left takes the match of the piece pattern that comes first, goes on after it, and
leaves what is between two matches as it is. The pieces of a text are cut like that: blanks as far
as they go, the longest token, or a text in which neither starts anywhere.

Without the blanks the pieces are slices of the text, and a formula is read from the slices alone:
what each of them is, it is by itself.

* `scan_cuts`: every piece is cut so.
* `tokensOf_eq_readSlices`: the slices are read one by one.
* `slices_cover_text`: the two together, and which text is reported as no token.
-/

namespace Worksheet

open Text (Pattern isBlank)
open Lexeme (tokenPattern piecePattern)

namespace Piece

/-! ## The pieces of a search -/

/-- How a piece is cut off the front of a text, of which it leaves `rest`. -/
inductive Cut : Piece → List Char → Prop
  /-- All the blanks there are. -/
  | blank {text rest : List Char} (hne : text ≠ []) (hblank : ∀ c ∈ text, isBlank c = true)
      (hfirst : piecePattern.first? (text ++ rest) = some rest) : Cut (.blank text) rest
  /-- The longest token, which is the match that comes first; by itself it is what it is here. -/
  | lexeme {l : Lexeme} {rest : List Char} (hne : l.text ≠ []) (hkind : l.pattern.Matches l.text)
      (hlongest : tokenPattern.Longest l.text rest)
      (hfirst : piecePattern.first? (l.text ++ rest) = some rest)
      (hreading : Lexeme.classify? l.text = some l.reading) : Cut (.lexeme l) rest
  /-- What is left up to the next match, or to the end; by itself it is no token. -/
  | stray {text rest : List Char} (hne : text ≠ []) (habsent : piecePattern.Absent text rest)
      (hends : rest ≠ [] → piecePattern.Starts rest)
      (hreading : Lexeme.classify? text = none) : Cut (.stray text) rest

/-- Every piece is cut off what the pieces before it leave. -/
def Cuts (pieces : List Piece) : Prop :=
  ∀ before piece after, pieces = before ++ piece :: after → piece.Cut (after.flatMap text)

variable {c : Char} {cs rest : List Char} {l : Lexeme} {piece : Piece} {pieces : List Piece}

theorem cuts_nil : Cuts [] := by
  intro before piece after h
  exact absurd h.symm (List.append_ne_nil_of_right_ne_nil before (List.cons_ne_nil piece after))

theorem cuts_cons_iff :
    Cuts (piece :: pieces) ↔ piece.Cut (pieces.flatMap text) ∧ Cuts pieces := by
  constructor
  · intro h
    refine ⟨h [] piece pieces rfl, ?_⟩
    rintro before piece' after rfl
    exact h (piece :: before) piece' after rfl
  · rintro ⟨hpiece, hpieces⟩ before piece' after h
    rcases List.append_eq_cons_iff.mp h.symm with ⟨-, h⟩ | ⟨before, -, rfl⟩
    · obtain ⟨rfl, rfl⟩ := List.cons.inj h
      exact hpiece
    · exact hpieces before piece' after rfl

theorem Cut.text_ne_nil (h : piece.Cut rest) : piece.text ≠ [] := by
  cases h with
  | blank hne _ _ => exact hne
  | lexeme hne _ _ _ _ => exact hne
  | stray hne _ _ _ => exact hne

/-- Where a piece is cut off, a match starts, unless the piece is stray. -/
theorem Cut.starts_iff (h : piece.Cut rest) :
    piecePattern.Starts (piece.text ++ rest) ↔ ∀ t, piece ≠ .stray t := by
  cases h with
  | blank _ _ hfirst => exact iff_of_true (Pattern.starts_of_first? hfirst) fun _ => nofun
  | lexeme _ _ _ hfirst _ => exact iff_of_true (Pattern.starts_of_first? hfirst) fun _ => nofun
  | @stray t _ hne habsent _ _ => exact iff_of_false (habsent [] t rfl hne) fun h => h t rfl

theorem cut_stray (hne : cs ≠ []) (habsent : piecePattern.Absent cs rest)
    (hends : rest ≠ [] → piecePattern.Starts rest) : Cut (.stray cs) rest :=
  .stray hne habsent hends <|
    Lexeme.classify?_eq_none_iff.mpr fun h => habsent.not_matches hne (Or.inl h)

/-- A character with which no match starts becomes stray, or more of the stray text after it. -/
theorem Cuts.consStray (hpieces : Cuts pieces)
    (hc : ¬ piecePattern.Starts (c :: pieces.flatMap text)) : Cuts (consStray c pieces) := by
  unfold Piece.consStray
  split
  · rename_i t pieces
    obtain ⟨hcut, hpieces⟩ := cuts_cons_iff.mp hpieces
    refine cuts_cons_iff.mpr ⟨?_, hpieces⟩
    cases hcut with
    | stray _ habsent hends _ =>
      exact cut_stray (List.cons_ne_nil _ _) (Pattern.absent_cons_iff.mpr ⟨hc, habsent⟩) hends
  · rename_i hstray
    refine cuts_cons_iff.mpr ⟨?_, hpieces⟩
    refine cut_stray (List.cons_ne_nil _ _)
      (Pattern.absent_cons_iff.mpr ⟨hc, Pattern.absent_nil _ _⟩) fun hne => ?_
    -- No stray text comes next, so what comes next is a match.
    cases pieces with
    | nil => contradiction
    | cons piece pieces =>
      refine (cuts_cons_iff.mp hpieces).1.starts_iff.mpr ?_
      rintro t rfl
      exact hstray t pieces rfl

theorem cut_blank (hc : isBlank c = true) (cs : List Char) :
    Cut (.blank (c :: cs.takeWhile isBlank)) (cs.dropWhile isBlank) := by
  refine .blank (List.cons_ne_nil _ _)
    (List.forall_mem_cons.mpr ⟨hc, List.all_eq_true.mp List.all_takeWhile⟩) ?_
  rw [List.cons_append, List.takeWhile_append_dropWhile, Pattern.first?, piecePattern,
    Pattern.rests_alt, Lexeme.rests_tokenPattern_of_isBlank hc, Pattern.rests_run_of_pos hc]
  exact Pattern.head?_runs isBlank cs

theorem cut_lexeme (h : Lexeme.first? cs = some (l, rest)) : Cut (.lexeme l) rest := by
  have htext := Lexeme.text_append_of_first? h
  have hfirst : tokenPattern.first? (l.text ++ rest) = some rest := by
    rw [htext, Lexeme.first?_tokenPattern, h, Option.map_some]
  refine .lexeme (Lexeme.text_ne_nil_of_first? h) (Lexeme.matches_pattern h)
    ((Lexeme.greedy_tokenPattern _).longest hfirst) ?_ (Lexeme.classify?_text h)
  rw [piecePattern, Pattern.first?_alt, hfirst, Option.some_or]

theorem not_starts_of_first?_eq_none (hc : isBlank c = false)
    (h : Lexeme.first? (c :: cs) = none) : ¬ piecePattern.Starts (c :: cs) := by
  have htoken : tokenPattern.rests (c :: cs) = [] := by
    rw [← Pattern.first?_eq_none_iff, Lexeme.first?_tokenPattern, h, Option.map_none]
  rw [Pattern.starts_iff, not_not, piecePattern, Pattern.rests_alt, htoken,
    Pattern.rests_run_of_neg hc, List.append_nil]

/-- **A text is cut as a search from the left cuts it.** -/
theorem scan_cuts (cs : List Char) : Cuts (scan cs) := by
  fun_induction scan cs with
  | case1 => exact cuts_nil
  | case2 c cs hc ih =>
    refine cuts_cons_iff.mpr ⟨?_, ih⟩
    rw [text_scan]
    exact cut_blank hc cs
  | case3 c cs hc l after h ih =>
    refine cuts_cons_iff.mpr ⟨?_, ih⟩
    rw [text_scan]
    exact cut_lexeme h
  | case4 c cs hc h ih =>
    refine ih.consStray ?_
    rw [text_scan]
    exact not_starts_of_first?_eq_none (Bool.eq_false_iff.mpr hc) h

/-- After a stray text comes none, or it would have gone on. -/
theorem Cuts.not_stray_stray (h : Cuts pieces) (before : List Piece) (t t' : List Char)
    (after : List Piece) : pieces ≠ before ++ .stray t :: .stray t' :: after := by
  intro hsplit
  have hsplit' : pieces = (before ++ [.stray t]) ++ .stray t' :: after := by
    rw [hsplit, List.append_assoc, List.singleton_append]
  have hsecond := h _ _ _ hsplit'
  cases h before (.stray t) (.stray t' :: after) hsplit with
  | stray _ _ hends _ =>
    have hne : (Piece.stray t' :: after).flatMap text ≠ [] := by
      rw [List.flatMap_cons]
      exact List.append_ne_nil_of_left_ne_nil hsecond.text_ne_nil _
    exact hsecond.starts_iff.mp (hends hne) t' rfl

end Piece

namespace Formula

open Piece (Cuts)

/-! ## The slices, one by one -/

/-- The slices of a text, in order: all pieces but the blanks. -/
def slices (text : String) : List (List Char) := (solidPieces text).map Piece.text

/-- The token that a slice by itself stands for: what is no token is reported, and so are variables
that the policy refuses, and numbers that are not finite. -/
def readSlice (policy : NamePolicy) (index : Nat) (slice : List Char) :
    Except ParseError Token :=
  match Lexeme.classify? slice with
  | none => .error (.strayText index (String.ofList slice))
  | some (.bracket b) => .ok (.bracket b)
  | some (.operator o) => .ok (.operator o)
  | some (.word w) =>
    match policy.canonical? (String.ofList w) with
    | some name => .ok (.variable name)
    | none => .error (.refusedName index (String.ofList slice))
  | some (.number (.finite _ m)) => .ok (.number m)
  | some (.number _) => .error (.numberOutOfRange index (String.ofList slice))

/-- The tokens of slices, counted from `index`. -/
def readSlices (policy : NamePolicy) (index : Nat) :
    List (List Char) → Except ParseError (List Token)
  | [] => .ok []
  | slice :: slices => do
    let token ← readSlice policy index slice
    let tokens ← readSlices policy (index + 1) slices
    return token :: tokens

variable {policy : NamePolicy} {index : Nat} {pieces : List Piece} {l : Lexeme}

theorem readSlice_text (h : Lexeme.classify? l.text = some l.reading) :
    readSlice policy index l.text = tokenOf policy index l := by
  rw [readSlice, h]
  cases l with
  | bracket b => rfl
  | operator o => rfl
  | word w => rfl
  | numeral n =>
    rw [Lexeme.reading, tokenOf, Number.Numeral.nearest]
    cases n.magnitude? with
    | none => rfl
    | some m => rfl

/-- **The slices are read one by one**, each by itself. -/
theorem tokensOf_eq_readSlices (h : Cuts pieces) : tokensOf policy index pieces =
    readSlices policy index ((pieces.filter Piece.isSolid).map Piece.text) := by
  induction pieces generalizing index with
  | nil => rfl
  | cons piece pieces ih =>
    obtain ⟨hcut, hpieces⟩ := Piece.cuts_cons_iff.mp h
    cases hcut with
    | blank _ _ _ => exact ih hpieces
    | lexeme _ _ _ _ hreading =>
      rw [tokensOf, ih hpieces, ← readSlice_text hreading]
      rfl
    | stray _ _ _ hreading =>
      rw [tokensOf, List.filter_cons_of_pos rfl, List.map_cons, readSlices, readSlice, Piece.text,
        hreading]
      rfl

/-! ## Text that is no token -/

theorem fault?_ne_strayText {tokens : List Token} {token : String}
    (hnamed : ∀ name, .variable name ∈ tokens → Name.isIdentifier name = true) :
    Arrangement.fault? tokens ≠ some (.strayText index token) := by
  intro hfault
  cases Arrangement.misarranged_of_fault? hnamed hfault

/-- **What is no token is reported** if no lexeme before it is refused. -/
theorem parse_eq_strayText_iff {text token : String} :
    parse policy text = .error (.strayText index token) ↔
      ∃ before t after, solidPieces text = before ++ .stray t :: after ∧
        (∀ p ∈ before, p.Acceptable policy) ∧ index = before.length ∧ token = String.ofList t := by
  rw [parse_eq_error_iff]
  constructor
  · rintro (hpieces | ⟨tokens, htokens, hfault⟩)
    · obtain ⟨before, piece, after, hsplit, hbefore, hrefused⟩ := tokensOf_eq_error_iff.mp hpieces
      rw [Nat.zero_add] at hrefused
      cases hrefused with
      | stray t => exact ⟨before, t, after, hsplit, hbefore, rfl, rfl⟩
    · exact absurd hfault (fault?_ne_strayText fun _ => isIdentifier_of_tokensOf htokens)
  · rintro ⟨before, t, after, hsplit, hbefore, rfl, rfl⟩
    refine Or.inl (tokensOf_eq_error_iff.mpr ⟨before, _, after, hsplit, hbefore, ?_⟩)
    rw [Nat.zero_add]
    exact .stray t

/-- **The slices cover a text** but for blanks. Each is the longest token at its place, and by
itself it is that token; or no token and no blank starts in it, it goes as far as that holds, and by
itself it is nothing. Such a slice is what is reported as no token, if no slice before it is
refused. -/
theorem slices_cover_text (text : String) :
    (Piece.scan text.toList).flatMap Piece.text = text.toList ∧
    Cuts (Piece.scan text.toList) ∧
    (∀ before t t' after,
      Piece.scan text.toList ≠ before ++ .stray t :: .stray t' :: after) ∧
    ∀ policy,
      tokensOf policy 0 (Piece.scan text.toList) = readSlices policy 0 (slices text) ∧
      ∀ index token, parse policy text = .error (.strayText index token) ↔
        ∃ before t after, solidPieces text = before ++ .stray t :: after ∧
          (∀ p ∈ before, p.Acceptable policy) ∧ index = before.length ∧
            token = String.ofList t :=
  ⟨Piece.text_scan _, Piece.scan_cuts _, (Piece.scan_cuts _).not_stray_stray, fun _ =>
    ⟨tokensOf_eq_readSlices (Piece.scan_cuts _), fun _ _ => parse_eq_strayText_iff⟩⟩

/-- In `1e999 $` the number is reported, and not what is no token after it. -/
theorem stray_text_behind_a_number :
    parse .plain "1e999 $" = .error (.numberOutOfRange 0 "1e999") ∧
      .stray ['$'] ∈ solidPieces "1e999 $" ∧
      ¬ ((∃ index token, parse .plain "1e999 $" = .error (.strayText index token)) ↔
        ∃ t, .stray t ∈ solidPieces "1e999 $") := by
  have hparse : parse .plain "1e999 $" = .error (.numberOutOfRange 0 "1e999") := by
    decide +kernel
  have hstray : .stray ['$'] ∈ solidPieces "1e999 $" := by
    decide +kernel
  refine ⟨hparse, hstray, fun h => ?_⟩
  obtain ⟨index, token, herror⟩ := h.mpr ⟨_, hstray⟩
  rw [hparse] at herror
  cases Except.error.inj herror

example : slices "1.2.3 $$1.e5+.5e" =
    ["1.2", ".3", "$$", "1.e5", "+", ".5", "e"].map String.toList := by
  decide +kernel

end Formula

end Worksheet
