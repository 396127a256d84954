import Worksheet.Formula.Evaluation
import Worksheet.Proofs.Formula.Grammar

/-!
# The trees of expressions

An `Expr` is an expression without its brackets: what each operator takes is in the tree. `Spells`
says which tokens a tree is read from: `*` and `/` bind more tightly than `+` and `-`, all four
take what is to their left as far as it goes, and brackets enclose a factor.

* `Derives.exists_spells`: what the grammar derives is read as some tree.
* `Expr.evaluate`: the value of a tree, the left operand before the right one.
-/

namespace Worksheet

/-- The tree of an expression. -/
inductive Expr where
  | number (value : Number.Magnitude)
  | variable (name : String)
  | binary (operator : Operator) (left right : Expr)
  deriving DecidableEq

namespace Expr

/-- The variables of a tree, from left to right. -/
def names : Expr → List String
  | .number _ => []
  | .variable name => [name]
  | .binary _ left right => left.names ++ right.names

/-- The value of a tree: the left operand, the right operand, and then what the operator makes of
them. -/
def evaluate {α : Type} (arithmetic : Arithmetic α) (lookup : String → Except EvalError α) :
    Expr → Asked α
  | .number m => pure (arithmetic.number m)
  | .variable name => Asked.ask lookup name
  | .binary o left right => do
    let x ← left.evaluate arithmetic lookup
    let y ← right.evaluate arithmetic lookup
    Asked.ofExcept (arithmetic.compute x y o)

end Expr

/-- How tightly a phrase holds together. -/
inductive Level where
  | sum
  | product
  | factor

/-- The tokens are read as the tree, at a level. -/
inductive Spells : Level → Expr → List Token → Prop
  | number (m : Number.Magnitude) : Spells .factor (.number m) [.number m]
  | named (name : String) : Spells .factor (.variable name) [.variable name]
  | bracketed {e : Expr} {tokens : List Token} (h : Spells .sum e tokens) :
      Spells .factor e (.bracket .opening :: tokens ++ [.bracket .closing])
  | factor {e : Expr} {tokens : List Token} (h : Spells .factor e tokens) :
      Spells .product e tokens
  | times {left right : Expr} {first second : List Token} {o : Operator}
      (ho : o.isAdditive = false) (hleft : Spells .product left first)
      (hright : Spells .factor right second) :
      Spells .product (.binary o left right) (first ++ .operator o :: second)
  | product {e : Expr} {tokens : List Token} (h : Spells .product e tokens) :
      Spells .sum e tokens
  | plus {left right : Expr} {first second : List Token} {o : Operator}
      (ho : o.isAdditive = true) (hleft : Spells .sum left first)
      (hright : Spells .product right second) :
      Spells .sum (.binary o left right) (first ++ .operator o :: second)

theorem Spells.names_eq {level : Level} {e : Expr} {tokens : List Token}
    (h : Spells level e tokens) : tokens.filterMap Formula.nameOf? = e.names := by
  induction h with
  | number m => rfl
  | named name => rfl
  | bracketed _ ih =>
    rw [List.cons_append, List.filterMap_cons_none rfl, List.filterMap_append, ih]
    exact List.append_nil _
  | factor _ ih => exact ih
  | times _ _ _ ihleft ihright =>
    rw [List.filterMap_append, List.filterMap_cons_none rfl, ihleft, ihright]
    rfl
  | product _ ih => exact ih
  | plus _ _ _ ihleft ihright =>
    rw [List.filterMap_append, List.filterMap_cons_none rfl, ihleft, ihright]
    rfl

/-! ## A tree for what the grammar derives

The grammar adds operands at the right end, a tree takes them in from the left. So the induction on
a derivation carries what is to its left: a sum that waits for a product, and within that a product
that waits for a factor. -/

/-- After these tokens a phrase of the level `wanted` completes one of the level `whole`. -/
def Awaits (wanted whole : Level) (before : List Token) : Prop :=
  ∀ e tokens, Spells wanted e tokens → ∃ tree, Spells whole tree (before ++ tokens)

theorem awaits_product_nil : Awaits .product .sum [] :=
  fun e _ h => ⟨e, .product h⟩

theorem awaits_factor_nil : Awaits .factor .product [] :=
  fun e _ h => ⟨e, .factor h⟩

theorem Spells.awaits_product {e : Expr} {tokens : List Token} (h : Spells .sum e tokens)
    {o : Operator} (ho : o.isAdditive = true) : Awaits .product .sum (tokens ++ [.operator o]) := by
  intro right second hright
  rw [List.append_assoc]
  exact ⟨.binary o e right, .plus ho h hright⟩

theorem Spells.awaits_factor {e : Expr} {tokens : List Token} (h : Spells .product e tokens)
    {o : Operator} (ho : o.isAdditive = false) :
    Awaits .factor .product (tokens ++ [.operator o]) := by
  intro right second hright
  rw [List.append_assoc]
  exact ⟨.binary o e right, .times ho h hright⟩

/-- What is read of a phrase of the grammar: an operand is a factor, and an expression completes
any sum and product that wait to its left. -/
def Readable : Phrase → List Token → Prop
  | .operand, tokens => ∃ e, Spells .factor e tokens
  | .expression, tokens => ∀ sum product, Awaits .product .sum sum →
      Awaits .factor .product product → ∃ e, Spells .sum e (sum ++ (product ++ tokens))

theorem Derives.readable {phrase : Phrase} {tokens : List Token} (h : Derives phrase tokens) :
    Readable phrase tokens := by
  induction h with
  | number m => exact ⟨.number m, .number m⟩
  | named name => exact ⟨.variable name, .named name⟩
  | bracketed _ ih =>
    obtain ⟨e, he⟩ := ih [] [] awaits_product_nil awaits_factor_nil
    exact ⟨e, .bracketed he⟩
  | single _ ih =>
    intro sum product hsum hproduct
    obtain ⟨factor, hfactor⟩ := ih
    obtain ⟨e, he⟩ := hproduct factor _ hfactor
    exact hsum e _ he
  | joined _ o _ ih ihrest =>
    intro sum product hsum hproduct
    obtain ⟨factor, hfactor⟩ := ih
    obtain ⟨e, he⟩ := hproduct factor _ hfactor
    cases ho : o.isAdditive with
    | true =>
      obtain ⟨s, hs⟩ := hsum e _ he
      obtain ⟨tree, htree⟩ := ihrest _ [] (hs.awaits_product ho) awaits_factor_nil
      exact ⟨tree, by simpa using htree⟩
    | false =>
      obtain ⟨tree, htree⟩ := ihrest sum _ hsum (he.awaits_factor ho)
      exact ⟨tree, by simpa using htree⟩

/-- **What the grammar derives is read as a tree.** -/
theorem Derives.exists_spells {tokens : List Token} (h : Derives .expression tokens) :
    ∃ e, Spells .sum e tokens :=
  h.readable [] [] awaits_product_nil awaits_factor_nil

end Worksheet
