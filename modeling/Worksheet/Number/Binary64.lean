import Worksheet.Number.Magnitude

/-!
# Double-precision numbers

`Binary64` is a double as a value: a signed magnitude, a signed infinity, or the one NaN (its bits
are never observed). The four operations compute the exact result on natural numbers and round it
once, and follow the standard's rules for signed zeros, infinities and NaN.
-/

namespace Worksheet.Number

/-- A double-precision number. -/
inductive Binary64 where
  | finite (negative : Bool) (magnitude : Magnitude)
  | infinite (negative : Bool)
  | nan
  deriving DecidableEq

namespace Binary64

/-- Positive zero. -/
def zero : Binary64 := .finite false .zero

instance : Inhabited Binary64 := ⟨zero⟩

/-- Neither an infinity nor NaN. -/
def isFinite : Binary64 → Bool
  | .finite .. => true
  | _ => false

/-- Zero of either sign. -/
def isZero : Binary64 → Bool
  | .finite _ m => m.coeff == 0
  | _ => false

/-- The double nearest to `num / den` units of `2 ^ -1074`, with the given sign. -/
def round (negative : Bool) (num den : Nat) : Binary64 :=
  match Magnitude.round? num den with
  | some m => .finite negative m
  | none => .infinite negative

/-- The opposite number; zeros and infinities change their sign too. -/
def neg : Binary64 → Binary64
  | .finite negative m => .finite (!negative) m
  | .infinite negative => .infinite (!negative)
  | .nan => .nan

/-- A magnitude with its sign, in units of `2 ^ -1074`. -/
def signedUnits (negative : Bool) (m : Magnitude) : Int :=
  if negative then -(m.units : Int) else m.units

/-- The sum; an exact sum of zero is negative only if both operands are. -/
def add : Binary64 → Binary64 → Binary64
  | .finite s m, .finite t n =>
    let sum := signedUnits s m + signedUnits t n
    if sum = 0 then .finite (s && t) .zero else round (sum < 0) sum.natAbs 1
  | .infinite s, .infinite t => if s = t then .infinite s else .nan
  | .infinite s, .finite .. => .infinite s
  | .finite .., .infinite t => .infinite t
  | .nan, _ => .nan
  | _, .nan => .nan

/-- The difference: the sum with the opposite number. -/
def sub (x y : Binary64) : Binary64 := add x y.neg

/-- The product; zero times an infinity is NaN. -/
def mul : Binary64 → Binary64 → Binary64
  | .finite s m, .finite t n => round (s ^^ t) (m.units * n.units) Magnitude.unitsPerOne
  | .infinite s, .infinite t => .infinite (s ^^ t)
  | .infinite s, .finite t n => if n.coeff = 0 then .nan else .infinite (s ^^ t)
  | .finite s m, .infinite t => if m.coeff = 0 then .nan else .infinite (s ^^ t)
  | .nan, _ => .nan
  | _, .nan => .nan

/-- The quotient; a zero divisor gives an infinity, or NaN for zero divided by zero. -/
def div : Binary64 → Binary64 → Binary64
  | .finite s m, .finite t n =>
    if n.coeff = 0 then
      if m.coeff = 0 then .nan else .infinite (s ^^ t)
    else round (s ^^ t) (m.units * Magnitude.unitsPerOne) n.units
  | .infinite _, .infinite _ => .nan
  | .infinite s, .finite t _ => .infinite (s ^^ t)
  | .finite s _, .infinite t => .finite (s ^^ t) .zero
  | .nan, _ => .nan
  | _, .nan => .nan

instance : Neg Binary64 := ⟨neg⟩
instance : Add Binary64 := ⟨add⟩
instance : Sub Binary64 := ⟨sub⟩
instance : Mul Binary64 := ⟨mul⟩
instance : Div Binary64 := ⟨div⟩

end Binary64

end Worksheet.Number
