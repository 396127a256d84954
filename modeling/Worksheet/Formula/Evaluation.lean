import Worksheet.Formula.Basic

/-!
# Evaluation of formulas

A formula is evaluated from left to right with a stack of values and a stack of waiting operators
and brackets. A product or quotient is taken as soon as its right operand is there, a sum or
difference when the next additive operator, a closing bracket or the end shows that its right
operand is complete.

* `Asked` is a computation that asks for the values of names: it keeps the names in the order of
  asking and ends at the first error.
* `Stacks.run` evaluates tokens with the values and operations of any `Arithmetic`.
* `Formula.evaluate` is the value of a formula under a lookup, in doubles.
-/

namespace Worksheet

/-- A computation that may ask for values of names: the names it asked for, in order, and how it
ended. -/
structure Asked (α : Type) where
  names : List String
  result : Except EvalError α

namespace Asked

/-- A computation that asks for nothing. -/
def ofExcept {α : Type} (result : Except EvalError α) : Asked α := ⟨[], result⟩

/-- Asks for the value of a name. -/
def ask {α : Type} (lookup : String → Except EvalError α) (name : String) : Asked α :=
  ⟨[name], lookup name⟩

/-- One computation after another; an error in the first ends both. -/
def bind {α β : Type} (x : Asked α) (next : α → Asked β) : Asked β :=
  match x.result with
  | .ok a => ⟨x.names ++ (next a).names, (next a).result⟩
  | .error e => ⟨x.names, .error e⟩

instance : Monad Asked where
  pure a := ofExcept (.ok a)
  bind := bind

end Asked

/-- Applies an operator; a divisor of zero, of either sign, is an error. -/
def Operator.compute (left right : Number.Binary64) : Operator → Except EvalError Number.Binary64
  | .plus => .ok (left + right)
  | .minus => .ok (left - right)
  | .times => .ok (left * right)
  | .over => if right.isZero then .error .zeroDivisor else .ok (left / right)

/-- What an evaluation computes with: the values of numbers, and what operators make of two
values. -/
structure Arithmetic (α : Type) where
  number : Number.Magnitude → α
  compute : α → α → Operator → Except EvalError α

/-- The arithmetic of doubles. -/
def Arithmetic.binary64 : Arithmetic Number.Binary64 := ⟨.finite false, Operator.compute⟩

/-- What waits for its right operand, or for its closing bracket. -/
inductive Waiting where
  | operator (operator : Operator)
  | bracket
  deriving DecidableEq

/-- The stacks of an evaluation, innermost first. -/
structure Stacks (α : Type) where
  values : List α := []
  waiting : List Waiting := []
  deriving DecidableEq

namespace Stacks

variable {α : Type} (arithmetic : Arithmetic α)

/-- Replaces the two innermost values by the result of an operator, which stops waiting. -/
def reduce (o : Operator) (waiting : List Waiting) : List α → Except EvalError (Stacks α)
  | right :: left :: values => do
    let value ← arithmetic.compute left right o
    return ⟨value :: values, waiting⟩
  | _ => .error (.stuck "operator needs two operands")

/-- Takes the product or quotient that waits for the innermost value. -/
def settleProduct (s : Stacks α) : Except EvalError (Stacks α) :=
  match s.waiting with
  | .operator o :: waiting =>
    if o.isAdditive then .ok s else reduce arithmetic o waiting s.values
  | _ => .ok s

/-- Takes the sum or difference that waits for the innermost value. -/
def settleSum (s : Stacks α) : Except EvalError (Stacks α) :=
  match s.waiting with
  | .operator o :: waiting =>
    if o.isAdditive then reduce arithmetic o waiting s.values else .ok s
  | _ => .ok s

/-- Takes in a value, which is the right operand of the product or quotient that waits for it. -/
def operand (s : Stacks α) (value : α) : Except EvalError (Stacks α) :=
  match s.waiting with
  | .operator o :: waiting =>
    if o.isAdditive then .ok { s with values := value :: s.values }
    else
      match s.values with
      | left :: values => do
        let value ← arithmetic.compute left value o
        return ⟨value :: values, waiting⟩
      | [] => .error (.stuck s!"'{o.symbol}' is missing its left operand")
  | _ => .ok { s with values := value :: s.values }

/-- Takes in an operator. -/
def operator (s : Stacks α) (o : Operator) : Except EvalError (Stacks α) := do
  let s ← if o.isAdditive then s.settleSum arithmetic else .ok s
  return { s with waiting := .operator o :: s.waiting }

/-- Takes in an opening bracket. -/
def opening (s : Stacks α) : Stacks α := { s with waiting := .bracket :: s.waiting }

/-- Takes in a closing bracket: what it encloses is complete, and is itself an operand. -/
def closing (s : Stacks α) : Except EvalError (Stacks α) := do
  let s ← s.settleSum arithmetic
  match s.waiting with
  | .bracket :: waiting => settleProduct arithmetic { s with waiting }
  | _ => .error (.stuck "expected '('")

/-- The value at the end of a formula: the only one, or the sum or difference of the only two. -/
def finish (s : Stacks α) : Except EvalError α :=
  let rest := s!"{s.values.length} operands and {s.waiting.length} operators left after evaluation"
  match s.waiting, s.values with
  | [], [value] => .ok value
  | [.operator o], [right, left] =>
    if o.isAdditive then arithmetic.compute left right o else .error (.stuck rest)
  | _, _ => .error (.stuck rest)

/-- Evaluates the tokens that are left. -/
def run (lookup : String → Except EvalError α) (s : Stacks α) : List Token → Asked α
  | [] => .ofExcept (s.finish arithmetic)
  | .number m :: tokens => do
    let s ← Asked.ofExcept (s.operand arithmetic (arithmetic.number m))
    run lookup s tokens
  | .variable name :: tokens => do
    let value ← Asked.ask lookup name
    let s ← Asked.ofExcept (s.operand arithmetic value)
    run lookup s tokens
  | .operator o :: tokens => do
    let s ← Asked.ofExcept (s.operator arithmetic o)
    run lookup s tokens
  | .bracket .opening :: tokens => run lookup s.opening tokens
  | .bracket .closing :: tokens => do
    let s ← Asked.ofExcept (s.closing arithmetic)
    run lookup s tokens

end Stacks

namespace Formula

/-- The value of a formula, with the names that were looked up for it. -/
def evaluate (f : Formula) (lookup : String → Except EvalError Number.Binary64) :
    Asked Number.Binary64 :=
  Stacks.run .binary64 lookup {} f.tokens

/-- The value of a formula under a lookup that just has no value for some names. -/
def evaluateKnown (f : Formula) (lookup : String → Option Number.Binary64) :
    Asked Number.Binary64 :=
  f.evaluate fun name =>
    match lookup name with
    | some value => .ok value
    | none => .error (.noValue name)

end Formula

end Worksheet
