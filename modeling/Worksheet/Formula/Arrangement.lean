import Worksheet.Formula.Error
import Worksheet.Formula.Token

/-!
# The arrangement of tokens

Tokens form an expression when each may follow the one before it, the first can start a value, the
last can end one, and brackets match. `Arrangement.fault?` looks at the two ends first and then
walks through the tokens, so of several faults it reports the one at an end, or else the leftmost.
-/

namespace Worksheet.Arrangement

/-- Walks through the tokens after `previous`, which `index` tokens precede or are; `opened` and
`closed` count the brackets among those. -/
def faultAfter? (previous : Token) (index opened closed : Nat) : List Token → Option ParseError
  | [] => if opened = closed then none else some (.unclosed opened closed)
  | token :: rest =>
    if opened + token.opens < closed + token.closes then some (.unopened index)
    else if !token.canFollow previous then
      some (.misplaced index (String.ofList token.text) (String.ofList previous.text))
    else faultAfter? token (index + 1) (opened + token.opens) (closed + token.closes) rest

/-- What keeps tokens from forming an expression, if anything does. -/
def fault? : List Token → Option ParseError
  | [] => some .noTokens
  | first :: rest =>
    let last := rest.getLastD first
    if !first.startsValue then some (.badStart (String.ofList first.text))
    else if !last.endsValue then some (.badEnd (String.ofList last.text))
    else faultAfter? first 1 first.opens first.closes rest

end Worksheet.Arrangement
