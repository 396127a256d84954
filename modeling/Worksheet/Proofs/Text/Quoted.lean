import Mathlib.Data.List.Basic
import Worksheet.Text.Quoted

/-!
# Where a quoted text ends

Inside quotes a backslash takes the next character along. So the text ends at the first quote that
no backslash takes along, and the last character of a text need not be that quote, also if it is a
quote.

* `scan_cases`: there is no such quote, or there is a first one.
* `getLast?_eq_quote_iff`: the three ways in which a text can have a quote at its end.
* `not_closed_of_lastEscaped`, `not_closed_of_closedEarly`: only one of them closes it there.
* `closed_encode`: what is written is closed.
-/

namespace Worksheet.Text.Quoted

/-- No quote among the characters ends the text: each of them is no backslash and no quote, or a
backslash takes it along. -/
inductive Inside : List Char → Prop
  | nil : Inside []
  | plain {c : Char} {rest : List Char} (hbackslash : c ≠ '\\') (hquote : c ≠ '"')
      (hrest : Inside rest) : Inside (c :: rest)
  | escaped (c : Char) {rest : List Char} (hrest : Inside rest) : Inside ('\\' :: c :: rest)

/-! What comes after the opening quote, up to the last character. -/

/-- The only quote that ends the text is the last character. -/
def Closed (rest : List Char) : Prop := ∃ inner, Inside inner ∧ rest = inner ++ ['"']

/-- The last character is a quote that a backslash takes along, and no quote ends the text. -/
def LastEscaped (rest : List Char) : Prop := ∃ inner, Inside inner ∧ rest = inner ++ ['\\', '"']

/-- A quote ends the text before its last character, which is a quote too. -/
def ClosedEarly (rest : List Char) : Prop :=
  ∃ inner more, Inside inner ∧ rest = inner ++ '"' :: (more ++ ['"'])

variable {rest start : List Char}

/-! ## The first quote -/

/-- **A text that is read from its opening quote** has no quote that ends it, and may end with a
backslash that has nothing to take along, or it has a first such quote. -/
theorem scan_cases (rest : List Char) :
    Inside rest ∨ (∃ inner, Inside inner ∧ rest = inner ++ ['\\']) ∨
      ∃ inner after, Inside inner ∧ rest = inner ++ '"' :: after := by
  induction rest using decode.induct with
  | case1 => exact Or.inl .nil
  | case2 c =>
    by_cases hbackslash : c = '\\'
    · exact Or.inr (Or.inl ⟨[], .nil, by rw [hbackslash, List.nil_append]⟩)
    · by_cases hquote : c = '"'
      · exact Or.inr (Or.inr ⟨[], [], .nil, by rw [hquote, List.nil_append]⟩)
      · exact Or.inl (.plain hbackslash hquote .nil)
  | case3 d rest ih =>
    rcases ih with hinside | ⟨inner, hinner, rfl⟩ | ⟨inner, after, hinner, rfl⟩
    · exact Or.inl (.escaped d hinside)
    · exact Or.inr (Or.inl ⟨'\\' :: d :: inner, .escaped d hinner, rfl⟩)
    · exact Or.inr (Or.inr ⟨'\\' :: d :: inner, after, .escaped d hinner, rfl⟩)
  | case4 c d rest hbackslash ih =>
    by_cases hquote : c = '"'
    · exact Or.inr (Or.inr ⟨[], d :: rest, .nil, by rw [hquote, List.nil_append]⟩)
    · rcases ih with hinside | ⟨inner, hinner, heq⟩ | ⟨inner, after, hinner, heq⟩
      · exact Or.inl (.plain hbackslash hquote hinside)
      · exact Or.inr (Or.inl ⟨c :: inner, .plain hbackslash hquote hinner, by rw [heq]; rfl⟩)
      · exact Or.inr (Or.inr
          ⟨c :: inner, after, .plain hbackslash hquote hinner, by rw [heq]; rfl⟩)

theorem inside_cons_iff {c : Char} (hbackslash : c ≠ '\\') :
    Inside (c :: rest) ↔ c ≠ '"' ∧ Inside rest := by
  constructor
  · intro h
    cases h with
    | plain _ hquote hrest => exact ⟨hquote, hrest⟩
    | escaped _ _ => exact absurd rfl hbackslash
  · exact fun ⟨hquote, hrest⟩ => .plain hbackslash hquote hrest

theorem inside_escaped_iff {c : Char} : Inside ('\\' :: c :: rest) ↔ Inside rest := by
  constructor
  · intro h
    cases h with
    | plain hbackslash _ _ => exact absurd rfl hbackslash
    | escaped _ hrest => exact hrest
  · exact .escaped c

/-- After such characters, the text goes on as it does from its start. -/
theorem Inside.append_iff (hstart : Inside start) : Inside (start ++ rest) ↔ Inside rest := by
  induction hstart with
  | nil => rfl
  | plain hbackslash hquote _ ih =>
    rw [List.cons_append, inside_cons_iff hbackslash, ih, and_iff_right hquote]
  | escaped c _ ih => rw [List.cons_append, List.cons_append, inside_escaped_iff, ih]

/-- A quote after them ends the text, whatever follows. -/
theorem Inside.not_append_quote (hstart : Inside start) (after : List Char) :
    ¬ Inside (start ++ '"' :: after) := by
  rw [hstart.append_iff, inside_cons_iff (by decide)]
  exact fun h => h.1 rfl

/-- There is one first quote that ends the text. -/
theorem Inside.eq_of_append_eq {inner inner' after after' : List Char} (h : Inside inner)
    (h' : Inside inner') (heq : inner ++ '"' :: after = inner' ++ '"' :: after') :
    after = after' := by
  induction h generalizing inner' with
  | nil =>
    cases h' with
    | nil => exact (List.cons.inj heq).2
    | plain _ hquote _ => exact absurd (List.cons.inj heq).1.symm hquote
    | escaped c _ => exact absurd (List.cons.inj heq).1 (by decide)
  | plain hbackslash hquote _ ih =>
    cases h' with
    | nil => exact absurd (List.cons.inj heq).1 hquote
    | plain _ _ hrest => exact ih hrest (List.cons.inj heq).2
    | escaped c _ => exact absurd (List.cons.inj heq).1 hbackslash
  | escaped c _ ih =>
    cases h' with
    | nil => exact absurd (List.cons.inj heq).1 (by decide)
    | plain hbackslash _ _ => exact absurd (List.cons.inj heq).1.symm hbackslash
    | escaped d hrest => exact ih hrest (List.cons.inj (List.cons.inj heq).2).2

/-! ## A quote at the end -/

theorem getLast?_eq_quote (rest : List Char) :
    rest.getLast? = some '"' ↔ ∃ start, rest = start ++ ['"'] := by
  constructor
  · intro h
    exact ⟨rest.dropLast, (List.dropLast_append_getLast? '"' h).symm⟩
  · rintro ⟨start, rfl⟩
    exact List.getLast?_concat

/-- **A quote at the end** closes the text there, or is taken along, or comes after the quote that
ended the text. -/
theorem getLast?_eq_quote_iff :
    rest.getLast? = some '"' ↔ Closed rest ∨ LastEscaped rest ∨ ClosedEarly rest := by
  rw [getLast?_eq_quote]
  constructor
  · rintro ⟨start, rfl⟩
    rcases scan_cases start with hinside | ⟨inner, hinner, rfl⟩ | ⟨inner, after, hinner, rfl⟩
    · exact Or.inl ⟨start, hinside, rfl⟩
    · exact Or.inr (Or.inl ⟨inner, hinner, List.append_assoc _ _ _⟩)
    · exact Or.inr (Or.inr ⟨inner, after, hinner, by rw [List.append_assoc, List.cons_append]⟩)
  · rintro (⟨inner, -, rfl⟩ | ⟨inner, -, rfl⟩ | ⟨inner, more, -, rfl⟩)
    · exact ⟨inner, rfl⟩
    · exact ⟨inner ++ ['\\'], by rw [List.append_assoc]; rfl⟩
    · exact ⟨inner ++ '"' :: more, by rw [List.append_assoc]; rfl⟩

theorem LastEscaped.inside (h : LastEscaped rest) : Inside rest := by
  obtain ⟨inner, hinner, rfl⟩ := h
  exact hinner.append_iff.mpr (.escaped '"' .nil)

theorem not_closed_of_lastEscaped (h : LastEscaped rest) : ¬ Closed rest := by
  rintro ⟨inner, hinner, rfl⟩
  exact hinner.not_append_quote [] h.inside

theorem not_closed_of_closedEarly (h : ClosedEarly rest) : ¬ Closed rest := by
  obtain ⟨inner, more, hinner, rfl⟩ := h
  rintro ⟨inner', hinner', heq⟩
  have hempty := hinner.eq_of_append_eq hinner' heq
  simp at hempty

/-! ## Texts as they are written -/

theorem inside_encodeChar (c : Char) : Inside (encodeChar c) := by
  unfold encodeChar
  split
  · exact .escaped '\\' .nil
  · rename_i hbackslash
    split
    · exact .escaped '"' .nil
    · rename_i hquote
      split
      · exact .escaped 'n' .nil
      · exact .plain hbackslash hquote .nil

/-- **What is written is closed** by the quote after it. -/
theorem closed_encode (text : List Char) : Closed (encode text ++ ['"']) := by
  refine ⟨encode text, ?_, rfl⟩
  induction text with
  | nil => exact .nil
  | cons c text ih =>
    rw [encode, List.flatMap_cons]
    exact (inside_encodeChar c).append_iff.mpr ih

end Worksheet.Text.Quoted
