/-!
# Errors of formulas

A `ParseError` says why a text is no formula, an `EvalError` why a formula has no value.
Indices count tokens from zero.
-/

namespace Worksheet

/-- Why a text is no formula. -/
inductive ParseError where
  | noTokens
  | badStart (token : String)
  | badEnd (token : String)
  | strayText (index : Nat) (token : String)
  | numberOutOfRange (index : Nat) (token : String)
  | refusedName (index : Nat) (token : String)
  | misplaced (index : Nat) (token previous : String)
  | unopened (index : Nat)
  | unclosed (opened closed : Nat)
  deriving DecidableEq

/-- The wording of a parse error. -/
def ParseError.message : ParseError → String
  | .noTokens => "formula contains no tokens"
  | .badStart token => s!"formula cannot start with '{token}'"
  | .badEnd token => s!"formula cannot end with '{token}'"
  | .strayText index token => s!"unrecognized token '{token}' at index {index}"
  | .numberOutOfRange index token => s!"number '{token}' at index {index} is out of range"
  | .refusedName index token => s!"variable '{token}' at index {index} is not valid"
  | .misplaced index token previous =>
    s!"'{token}' at index {index} cannot follow '{previous}'"
  | .unopened index => s!"closing parenthesis at index {index} has no matching '('"
  | .unclosed opened closed => s!"{opened} opening parentheses but {closed} closing"

/-- Why a formula has no value. A cell whose formula fails holds such an error as its value. -/
inductive EvalError where
  | noValue (name : String)
  | notNumber (name : String)
  | failed (name reason : String)
  | zeroDivisor
  | stuck (reason : String)
  deriving DecidableEq

/-- The wording of an evaluation error. -/
def EvalError.message : EvalError → String
  | .noValue name => s!"variable {name} has no value"
  | .notNumber name => s!"variable {name} is not a number"
  | .failed name reason => s!"variable {name} has an error: {reason}"
  | .zeroDivisor => "division by zero"
  | .stuck reason => s!"malformed expression: {reason}"

end Worksheet
