import Mathlib.Logic.Basic
import Worksheet.Proofs.Formula.Tree
import Worksheet.Proofs.Formula.Variables
import Worksheet.Proofs.Number.Rounding

/-!
# Evaluation follows the tree

The stacks of an evaluation take a phrase in as if it were a single value (`Spells.run_eq`): a
factor anywhere, a product where no product waits, and a sum at the start or after an opening
bracket, if what follows completes it. The end completes only what stands at the start. So
evaluation gives what the tree gives, whatever the values and operations are, and asks for the same
names in the same order.

* `Spells.run_eq_evaluate`: a run on the tokens of a tree is the evaluation of the tree.
* `Spells.unique`: tokens are read as one tree only, which a run in the arithmetic of trees finds.
* `Formula.evaluates_as_tree`: what the evaluation of a formula gives and asks for.
-/

namespace Worksheet

namespace Asked

variable {α β : Type}

theorem ofExcept_ok (a : α) : ofExcept (.ok a) = pure a := rfl

theorem ofExcept_bind (x : Except EvalError α) (f : α → Except EvalError β) :
    ofExcept (x >>= f) = ofExcept x >>= fun a => ofExcept (f a) := by
  cases x with
  | ok a => rfl
  | error e => rfl

theorem result_bind (x : Asked α) (f : α → Asked β) :
    (x >>= f).result = x.result >>= fun a => (f a).result := by
  obtain ⟨names, _ | a⟩ := x
  · rfl
  · rfl

theorem ok_bind (names : List String) (a : α) (next : α → Asked β) :
    (⟨names, .ok a⟩ : Asked α) >>= next = ⟨names ++ (next a).names, (next a).result⟩ := rfl

end Asked

instance : LawfulMonad Asked := LawfulMonad.mk' Asked
  (by
    rintro α ⟨names, _ | a⟩
    · rfl
    · show Asked.mk (names ++ []) (.ok a) = ⟨names, .ok a⟩
      rw [List.append_nil])
  (fun a f => rfl)
  (by
    rintro α β γ ⟨names, _ | a⟩ f g
    · rfl
    · rw [Asked.ok_bind, Asked.ok_bind]
      obtain ⟨more, _ | b⟩ := f a
      · rfl
      · simp only [Asked.ok_bind, List.append_assoc])

namespace Stacks

variable {α : Type} {arithmetic : Arithmetic α} {lookup : String → Except EvalError α}

/-- No product or quotient waits for its right operand. -/
def NoProduct (waiting : List Waiting) : Prop :=
  ∀ o, waiting.head? = some (.operator o) → o.isAdditive = true

/-- A product or quotient that waits for its right operand has its left one. -/
def HasLeft (s : Stacks α) : Prop :=
  ∀ o, s.waiting.head? = some (.operator o) → o.isAdditive = false → s.values ≠ []

/-- No operator waits for its right operand. -/
def NoOperator (waiting : List Waiting) : Prop :=
  ∀ o, waiting.head? ≠ some (.operator o)

/-- The end, a closing bracket, `+` or `-`: what completes a sum to its left. -/
def CompletesSum (tokens : List Token) : Prop :=
  ∀ token ∈ tokens.head?, token = .bracket .closing ∨
    ∃ o : Operator, o.isAdditive = true ∧ token = .operator o

theorem NoOperator.noProduct {waiting : List Waiting} (h : NoOperator waiting) :
    NoProduct waiting := fun o ho => absurd ho (h o)

variable {values : List α} {waiting : List Waiting}

theorem NoProduct.hasLeft (h : NoProduct waiting) : HasLeft ⟨values, waiting⟩ := by
  intro o ho hproduct
  rw [h o ho] at hproduct
  contradiction

theorem settleSum_of_noOperator (h : NoOperator waiting) :
    settleSum arithmetic ⟨values, waiting⟩ = .ok ⟨values, waiting⟩ := by
  match waiting with
  | [] => rfl
  | .bracket :: _ => rfl
  | .operator o :: _ => exact absurd rfl (h o)

theorem operand_of_noProduct (h : NoProduct waiting) (v : α) :
    operand arithmetic ⟨values, waiting⟩ v = .ok ⟨v :: values, waiting⟩ := by
  match waiting with
  | [] => rfl
  | .bracket :: _ => rfl
  | .operator o :: _ => simp [operand, h o rfl]

/-- The right operand of a product or quotient is taken in together with it. -/
theorem operand_of_product {o : Operator} (ho : o.isAdditive = false) (x y : α) :
    operand arithmetic ⟨x :: values, .operator o :: waiting⟩ y =
      (do let value ← arithmetic.compute x y o; return ⟨value :: values, waiting⟩) := by
  simp [operand, ho]

/-- A value in brackets is taken in as any other. -/
theorem closing_of_bracket (h : HasLeft ⟨values, waiting⟩) (v : α) :
    closing arithmetic ⟨v :: values, .bracket :: waiting⟩ =
      operand arithmetic ⟨values, waiting⟩ v := by
  match waiting, values with
  | [], _ => rfl
  | .bracket :: _, _ => rfl
  | .operator o :: waiting, left :: values =>
    simp [closing, settleSum, settleProduct, operand, reduce, bind, Except.bind]
  | .operator o :: waiting, [] =>
    have ho : o.isAdditive = true := by
      by_contra hproduct
      exact h o rfl (Bool.not_eq_true _ ▸ hproduct) rfl
    simp [closing, settleSum, settleProduct, operand, ho, bind, Except.bind]

/-- A product or quotient waits for its right operand. -/
theorem operator_of_product {o : Operator} (ho : o.isAdditive = false) :
    operator arithmetic ⟨values, waiting⟩ o = .ok ⟨values, .operator o :: waiting⟩ := by
  rw [operator, if_neg (by simp [ho])]
  rfl

/-- So does a sum or difference where nothing is left to settle. -/
theorem operator_of_noOperator {o : Operator} (ho : o.isAdditive = true)
    (h : NoOperator waiting) :
    operator arithmetic ⟨values, waiting⟩ o = .ok ⟨values, .operator o :: waiting⟩ := by
  rw [operator, if_pos ho, settleSum_of_noOperator h]
  rfl

/-- A token that completes a sum settles it first. -/
theorem run_congr_settleSum {s t : Stacks α} (h : s.settleSum arithmetic = t.settleSum arithmetic)
    {token : Token} {tokens : List Token} (htokens : CompletesSum (token :: tokens)) :
    run arithmetic lookup s (token :: tokens) = run arithmetic lookup t (token :: tokens) := by
  obtain rfl | ⟨o, ho, rfl⟩ := htokens token rfl
  · rw [run, run, closing, closing, h]
  · rw [run, run, operator, operator, if_pos ho, if_pos ho, h]

theorem run_of_settleSum_error {s : Stacks α} {e : EvalError}
    (h : s.settleSum arithmetic = .error e) {token : Token} {tokens : List Token}
    (htokens : CompletesSum (token :: tokens)) :
    run arithmetic lookup s (token :: tokens) = Asked.ofExcept (.error e) := by
  obtain rfl | ⟨o, ho, rfl⟩ := htokens token rfl
  · rw [run, closing, h]
    rfl
  · rw [run, operator, if_pos ho, h]
    rfl

/-- At the end a sum or difference of the only two values is taken. -/
theorem finish_of_sum {o : Operator} (ho : o.isAdditive = true) (x y : α) :
    finish arithmetic ⟨[y, x], [.operator o]⟩ = arithmetic.compute x y o := by
  simp [finish, ho]

/-- A sum or difference is taken when what follows completes it. -/
theorem run_of_sum {o : Operator} (ho : o.isAdditive = true) (hwaiting : NoOperator waiting)
    {tokens : List Token} (htokens : CompletesSum tokens)
    (hend : tokens = [] → (⟨values, waiting⟩ : Stacks α) = {}) (x y : α) :
    run arithmetic lookup ⟨y :: x :: values, .operator o :: waiting⟩ tokens = (do
      let value ← Asked.ofExcept (arithmetic.compute x y o)
      run arithmetic lookup ⟨value :: values, waiting⟩ tokens) := by
  cases tokens with
  | nil =>
    obtain ⟨rfl, rfl⟩ := Stacks.mk.inj (hend rfl)
    rw [run, finish_of_sum ho]
    exact (bind_pure _).symm
  | cons token tokens =>
    have hsettle : settleSum arithmetic ⟨y :: x :: values, .operator o :: waiting⟩ =
        (do let value ← arithmetic.compute x y o; return ⟨value :: values, waiting⟩) := by
      simp [settleSum, ho, reduce]
    cases hvalue : arithmetic.compute x y o with
    | error e =>
      rw [hvalue] at hsettle
      exact run_of_settleSum_error hsettle htokens
    | ok value =>
      rw [hvalue] at hsettle
      refine run_congr_settleSum (hsettle.trans ?_) htokens
      exact (settleSum_of_noOperator hwaiting).symm

end Stacks

/-! ## Phrases as values -/

open Stacks

/-- Where a phrase of a level is taken in as a single value: the stacks that it may meet, and what
may follow it. Only a sum at the start may end the formula. -/
def Level.Fits {α : Type} : Level → Stacks α → List Token → Prop
  | .factor, s, _ => s.HasLeft
  | .product, s, _ => NoProduct s.waiting
  | .sum, s, rest => NoOperator s.waiting ∧ CompletesSum rest ∧ (rest = [] → s = {})

/-- **A phrase is taken in as its value**, after its own lookups and operations. -/
theorem Spells.run_eq {α : Type} {arithmetic : Arithmetic α} {lookup : String → Except EvalError α}
    {level : Level} {e : Expr} {tokens : List Token} (h : Spells level e tokens)
    {values : List α} {waiting : List Waiting} {rest : List Token}
    (hfits : level.Fits ⟨values, waiting⟩ rest) :
    run arithmetic lookup ⟨values, waiting⟩ (tokens ++ rest) = (do
      let value ← e.evaluate arithmetic lookup
      let s ← Asked.ofExcept (operand arithmetic ⟨values, waiting⟩ value)
      run arithmetic lookup s rest) := by
  induction h generalizing values waiting rest with
  | number m => rfl
  | named name => rfl
  | @bracketed e tokens _ ih =>
    have hinner : Level.sum.Fits ⟨values, .bracket :: waiting⟩ (.bracket .closing :: rest) :=
      ⟨by simp [NoOperator], by simp [CompletesSum], by simp⟩
    have hbracket : NoProduct (.bracket :: waiting) := by simp [NoProduct]
    show run arithmetic lookup ⟨values, .bracket :: waiting⟩
      (tokens ++ [.bracket .closing] ++ rest) = _
    rw [List.append_assoc, List.singleton_append, ih hinner]
    simp only [run, operand_of_noProduct hbracket, closing_of_bracket hfits, Asked.ofExcept_ok,
      pure_bind]
  | factor _ ih => exact ih hfits.hasLeft
  | @times left right first second o ho _ _ ihleft ihright =>
    have hleft : Level.product.Fits ⟨values, waiting⟩ (.operator o :: (second ++ rest)) := hfits
    have hright : ∀ value, Level.factor.Fits ⟨value :: values, .operator o :: waiting⟩ rest :=
      fun value _ _ _ => List.cons_ne_nil value values
    have hnone : NoProduct waiting := hfits
    rw [List.append_assoc, List.cons_append, ihleft hleft]
    simp only [run, operand_of_noProduct hnone, operator_of_product ho, operand_of_product ho,
      ihright (hright _), Expr.evaluate, Asked.ofExcept_bind, Asked.ofExcept_ok, bind_assoc,
      pure_bind]
    rfl
  | product _ ih => exact ih hfits.1.noProduct
  | @plus left right first second o ho _ _ ihleft ihright =>
    obtain ⟨hwaiting, hrest, hend⟩ := hfits
    have hleft : Level.sum.Fits ⟨values, waiting⟩ (.operator o :: (second ++ rest)) :=
      ⟨hwaiting, by simp [CompletesSum, ho], by simp⟩
    have hright : NoProduct (.operator o :: waiting) := by simp [NoProduct, ho]
    have hproduct : ∀ value,
        Level.product.Fits ⟨value :: values, .operator o :: waiting⟩ rest := fun value => hright
    rw [List.append_assoc, List.cons_append, ihleft hleft]
    simp only [run, operand_of_noProduct hwaiting.noProduct, operand_of_noProduct hright,
      operator_of_noOperator ho hwaiting, ihright (hproduct _),
      run_of_sum ho hwaiting hrest hend, Expr.evaluate, Asked.ofExcept_ok, bind_assoc, pure_bind]

/-- **A run on the tokens of a tree** is the evaluation of the tree. -/
theorem Spells.run_eq_evaluate {α : Type} (arithmetic : Arithmetic α)
    (lookup : String → Except EvalError α) {e : Expr} {tokens : List Token}
    (h : Spells .sum e tokens) :
    run arithmetic lookup {} tokens = e.evaluate arithmetic lookup := by
  have hfits : Level.sum.Fits (⟨[], []⟩ : Stacks α) [] :=
    ⟨by simp [NoOperator], by simp [CompletesSum], fun _ => rfl⟩
  have hrun : run arithmetic lookup ⟨[], []⟩ (tokens ++ []) = _ := h.run_eq hfits
  rw [List.append_nil] at hrun
  rw [hrun]
  exact bind_pure _

/-! ## One tree -/

/-- The arithmetic whose values are the trees themselves. -/
def Arithmetic.trees : Arithmetic Expr := ⟨.number, fun left right o => .ok (.binary o left right)⟩

theorem Expr.evaluate_trees (e : Expr) :
    (e.evaluate .trees fun name => .ok (.variable name)).result = .ok e := by
  match e with
  | .number m => rfl
  | .variable name => rfl
  | .binary o left right =>
    simp only [evaluate, Asked.result_bind, evaluate_trees left, evaluate_trees right]
    rfl

/-- **Tokens are read as one tree only**: a run in the arithmetic of trees gives it back. -/
theorem Spells.unique {e e' : Expr} {tokens : List Token} (h : Spells .sum e tokens)
    (h' : Spells .sum e' tokens) : e' = e := by
  have hrun := h.run_eq_evaluate .trees fun name => .ok (.variable name)
  rw [h'.run_eq_evaluate .trees fun name => .ok (.variable name)] at hrun
  have hresult := congrArg Asked.result hrun
  rw [Expr.evaluate_trees, Expr.evaluate_trees] at hresult
  exact Except.ok.inj hresult

/-! ## Lookups and errors -/

theorem Number.Binary64.isZero_iff {x : Number.Binary64} :
    x.isZero = true ↔ x = .zero ∨ x = -.zero := by
  constructor
  · intro h
    match x, h with
    | .finite negative m, h =>
      obtain rfl := Number.Magnitude.eq_zero_of_coeff (m := m) (beq_iff_eq.mp h)
      cases negative
      · exact Or.inl rfl
      · exact Or.inr rfl
  · rintro (rfl | rfl)
    · rfl
    · rfl

/-- An operator fails exactly where it divides by a zero, of either sign. -/
theorem Operator.compute_eq_error_iff {o : Operator} {x y : Number.Binary64} {e : EvalError} :
    o.compute x y = .error e ↔ e = .zeroDivisor ∧ o = .over ∧ (y = .zero ∨ y = -.zero) := by
  rw [← Number.Binary64.isZero_iff]
  match o with
  | .plus => simp [compute]
  | .minus => simp [compute]
  | .times => simp [compute]
  | .over =>
    rw [compute]
    split
    · rename_i hzero
      simp [hzero, eq_comm]
    · rename_i hzero
      simp [hzero]

/-- How an evaluation may go that looks up the names `wanted` in order: to the end, to the first
failing lookup, or to a division by zero. Nothing is looked up after that. -/
inductive LooksUp (lookup : String → Except EvalError Number.Binary64) (wanted : List String) :
    Asked Number.Binary64 → Prop
  | finished {x : Number.Binary64} (hknown : ∀ name ∈ wanted, ∃ y, lookup name = .ok y) :
      LooksUp lookup wanted ⟨wanted, .ok x⟩
  | failed {before after : List String} {name : String} {e : EvalError}
      (hwanted : wanted = before ++ name :: after)
      (hknown : ∀ n ∈ before, ∃ y, lookup n = .ok y) (he : lookup name = .error e) :
      LooksUp lookup wanted ⟨before ++ [name], .error e⟩
  | divided {before after : List String} (hwanted : wanted = before ++ after)
      (hknown : ∀ n ∈ before, ∃ y, lookup n = .ok y) :
      LooksUp lookup wanted ⟨before, .error .zeroDivisor⟩

section LooksUp

variable {lookup : String → Except EvalError Number.Binary64}

theorem LooksUp.bind {first second : List String} {x : Asked Number.Binary64}
    {next : Number.Binary64 → Asked Number.Binary64} (hx : LooksUp lookup first x)
    (hnext : ∀ a, LooksUp lookup second (next a)) :
    LooksUp lookup (first ++ second) (x >>= next) := by
  have hboth : ∀ {more : List String}, (∀ name ∈ first, ∃ y, lookup name = .ok y) →
      (∀ name ∈ more, ∃ y, lookup name = .ok y) →
        ∀ name ∈ first ++ more, ∃ y, lookup name = .ok y := by
    intro more hfirst hmore name hname
    exact (List.mem_append.mp hname).elim (hfirst name) (hmore name)
  cases hx with
  | @failed before after name e hwanted hknown he =>
    have happend : first ++ second = before ++ name :: (after ++ second) := by
      rw [hwanted, List.append_assoc, List.cons_append]
    exact .failed happend hknown he
  | divided hwanted hknown => exact .divided (by rw [hwanted, List.append_assoc]) hknown
  | @finished a hknown =>
    rw [Asked.ok_bind]
    have hsecond := hnext a
    generalize next a = y at hsecond
    cases hsecond with
    | finished hmore => exact .finished (hboth hknown hmore)
    | failed hwanted hmore he =>
      rw [← List.append_assoc]
      exact .failed (by rw [hwanted, List.append_assoc]) (hboth hknown hmore) he
    | divided hwanted hmore =>
      exact .divided (by rw [hwanted, List.append_assoc]) (hboth hknown hmore)

/-- An operator fails only where it divides by zero. -/
theorem Operator.looksUp_compute (o : Operator) (x y : Number.Binary64) :
    LooksUp lookup [] (Asked.ofExcept (o.compute x y)) := by
  have hnone : ∀ name ∈ ([] : List String), ∃ z, lookup name = .ok z := by simp
  cases hvalue : o.compute x y with
  | ok z => exact .finished hnone
  | error e =>
    obtain ⟨rfl, -⟩ := compute_eq_error_iff.mp hvalue
    exact .divided rfl hnone

/-- A tree looks up its variables, from left to right. -/
theorem Expr.looksUp_evaluate (e : Expr) :
    LooksUp lookup e.names (e.evaluate .binary64 lookup) := by
  match e with
  | .number m => exact .finished (by simp [names])
  | .variable name =>
    rw [evaluate, Asked.ask]
    cases hname : lookup name with
    | ok x => exact .finished (by simp [names, hname])
    | error e =>
      have hwanted : [name] = [] ++ name :: [] := rfl
      exact .failed hwanted (by simp) hname
  | .binary o left right =>
    have hoperator : ∀ x y,
        LooksUp lookup [] (Asked.ofExcept (Arithmetic.binary64.compute x y o)) :=
      fun x y => o.looksUp_compute x y
    rw [evaluate, names, ← List.append_nil right.names]
    exact left.looksUp_evaluate.bind fun x => right.looksUp_evaluate.bind fun y => hoperator x y

/-- An error of a tree is that of a lookup or a division by zero. -/
theorem LooksUp.error_cases {wanted : List String} {asked : Asked Number.Binary64} {e : EvalError}
    (h : LooksUp lookup wanted asked) (he : asked.result = .error e) :
    e = .zeroDivisor ∨ ∃ name ∈ wanted, lookup name = .error e := by
  cases h with
  | finished _ => contradiction
  | failed hwanted _ hname =>
    obtain rfl := Except.error.inj he
    exact Or.inr ⟨_, by simp [hwanted], hname⟩
  | divided _ _ => exact Or.inl (Except.error.inj he).symm

end LooksUp

namespace Formula

theorem exists_spells (f : Formula) : ∃ e, Spells .sum e f.tokens :=
  (completes_iff_derives.mp (Arrangement.fault?_eq_none_iff.mp f.arranged)).exists_spells

/-- A formula looks up its variables as they occur, up to the first error. -/
theorem looksUp_evaluate (f : Formula) (lookup : String → Except EvalError Number.Binary64) :
    LooksUp lookup (f.tokens.filterMap nameOf?) (f.evaluate lookup) := by
  obtain ⟨e, he⟩ := f.exists_spells
  have hevaluate : f.evaluate lookup = e.evaluate .binary64 lookup :=
    he.run_eq_evaluate .binary64 lookup
  rw [hevaluate, he.names_eq]
  exact e.looksUp_evaluate

/-- **An error of a formula** is a division by zero or what the lookup of a variable gives. -/
theorem evaluate_eq_error {f : Formula} {lookup : String → Except EvalError Number.Binary64}
    {e : EvalError} (h : (f.evaluate lookup).result = .error e) :
    e = .zeroDivisor ∨ ∃ name ∈ f.variableNames, lookup name = .error e := by
  refine ((f.looksUp_evaluate lookup).error_cases h).imp_right ?_
  rintro ⟨name, hname, hlookup⟩
  exact ⟨name, mem_variableNames.mpr (mem_filterMap_nameOf?.mp hname), hlookup⟩

/-- The evaluation of a formula is the evaluation of the tree. -/
structure EvaluatesAs (f : Formula) (e : Expr) : Prop where
  spells : Spells .sum e f.tokens
  unique : ∀ e', Spells .sum e' f.tokens → e' = e
  /-- Whatever the values and the operations are, they are applied as in the tree. -/
  run_eq : ∀ {α : Type} (arithmetic : Arithmetic α) (lookup : String → Except EvalError α),
    Stacks.run arithmetic lookup {} f.tokens = e.evaluate arithmetic lookup
  evaluate_eq : ∀ lookup, f.evaluate lookup = e.evaluate .binary64 lookup
  /-- The variables are looked up as they occur, up to the first error. -/
  looksUp : ∀ lookup, LooksUp lookup (f.tokens.filterMap nameOf?) (f.evaluate lookup)
  /-- The stacks are never stuck: such an error is that of a lookup. -/
  stuck : ∀ lookup reason, (f.evaluate lookup).result = .error (.stuck reason) →
    ∃ name ∈ f.variableNames, lookup name = .error (.stuck reason)
  congr : ∀ lookup lookup', (∀ name ∈ f.variableNames, lookup name = lookup' name) →
    f.evaluate lookup = f.evaluate lookup'

/-- **Evaluation is ordinary arithmetic**: each formula has one tree, and is evaluated as the tree
is, where an operator fails only to divide by a zero of either sign. -/
theorem evaluates_as_tree (f : Formula) : (∃ e, f.EvaluatesAs e) ∧
    ∀ (o : Operator) (x y : Number.Binary64) (e : EvalError), o.compute x y = .error e ↔
      e = .zeroDivisor ∧ o = .over ∧ (y = .zero ∨ y = -.zero) := by
  refine ⟨?_, fun o x y e => Operator.compute_eq_error_iff⟩
  obtain ⟨e, he⟩ := f.exists_spells
  refine ⟨e, he, fun e' he' => he.unique he', fun arithmetic => he.run_eq_evaluate arithmetic,
    he.run_eq_evaluate .binary64, f.looksUp_evaluate, ?_, fun _ _ => evaluate_congr⟩
  intro lookup reason hstuck
  obtain hzero | hlookup := evaluate_eq_error hstuck
  · contradiction
  · exact hlookup

end Formula

end Worksheet
