import Mathlib
import Worksheet.Proofs.Name.Policy
import Worksheet.Settings.Basic

/-!
# Letter cases

All settings spell names so that spelling them anew changes nothing.
-/

namespace Worksheet

theorem LetterCase.apply_apply (letterCase : LetterCase) (name : String) :
    letterCase.apply (letterCase.apply name) = letterCase.apply name := by
  cases letterCase with
  | asWritten => rfl
  | upper =>
    show (name.map Char.toUpper).map Char.toUpper = name.map Char.toUpper
    rw [String.map_map]
    exact congrArg name.map (funext Char.toUpper_toUpper_eq_toUpper)
  | lower =>
    show (name.map Char.toLower).map Char.toLower = name.map Char.toLower
    rw [String.map_map]
    exact congrArg name.map (funext Char.toLower_toLower_eq_toLower)

/-- Under any settings a name that was brought to its spelling is spelt so. -/
theorem Settings.policy_idempotent (settings : Settings) : settings.policy.Idempotent :=
  settings.letterCase.apply_apply

end Worksheet
