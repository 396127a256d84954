import Worksheet.Number.Shortest

/-!
# Tokens of a formula

A formula is a sequence of brackets, operators, numbers and variables. A number in a formula is a
magnitude: it has no sign of its own and is never infinite or NaN.
-/

namespace Worksheet

/-- A round bracket. -/
inductive Bracket where
  | opening
  | closing
  deriving DecidableEq

/-- An arithmetic operator. -/
inductive Operator where
  | plus
  | minus
  | times
  | over
  deriving DecidableEq

/-- The character of a bracket. -/
def Bracket.symbol : Bracket → Char
  | .opening => '('
  | .closing => ')'

namespace Operator

/-- The character of an operator. -/
def symbol : Operator → Char
  | .plus => '+'
  | .minus => '-'
  | .times => '*'
  | .over => '/'

/-- The operators that bind less tightly, `+` and `-`. -/
def isAdditive : Operator → Bool
  | .plus => true
  | .minus => true
  | .times => false
  | .over => false

end Operator

/-- A token of a formula. -/
inductive Token where
  | bracket (bracket : Bracket)
  | operator (operator : Operator)
  | number (value : Number.Magnitude)
  | variable (name : String)
  deriving DecidableEq

namespace Token

/-- The text of a token: numbers in full, with the fewest digits that read back. -/
def text : Token → List Char
  | .bracket b => [b.symbol]
  | .operator o => [o.symbol]
  | .number m => m.text
  | .variable name => name.toList

/-- Numbers and variables stand for a value by themselves. -/
def isOperand : Token → Bool
  | .number _ => true
  | .variable _ => true
  | _ => false

/-- The tokens that a value can start with. -/
def startsValue (t : Token) : Bool := t.isOperand || t == .bracket .opening

/-- The tokens that a value can end with. -/
def endsValue (t : Token) : Bool := t.isOperand || t == .bracket .closing

/-- Whether a token may come right after `previous`: a value starts where one is wanted, and after
a value comes an operator or a closing bracket. -/
def canFollow (t previous : Token) : Bool :=
  if previous.endsValue then !t.startsValue else t.startsValue

/-- How many opening brackets the token is. -/
def opens (t : Token) : Nat := if t = .bracket .opening then 1 else 0

/-- How many closing brackets the token is. -/
def closes (t : Token) : Nat := if t = .bracket .closing then 1 else 0

end Token

end Worksheet
