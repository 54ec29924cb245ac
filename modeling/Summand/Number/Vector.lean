import Summand.Decimal.Vector
import Summand.Number.Form

/-!
# Writing vectors of numbers

A vector is written in the form that fits all of its numbers: words led by blanks up to the longest
of them, doubles aligned at their points, and numbers that have no form in common each as it is.
-/

namespace Summand.Number

/-- The texts of numbers, as messages show them. -/
def texts (v : List Number) : List (List Char) := v.map fun n ↦ n.shown.toList

/-- Texts led by blanks up to the length of the longest. -/
def alignedRight (texts : List (List Char)) : List (List Char) :=
  texts.map (Text.indentTo (texts.foldl (fun n text ↦ max n text.length) 0))

/-- The text of a vector. -/
def vectorText (v : List Number) : String :=
  match formOf v with
  | .integers => Text.row (fun entries ↦ alignedRight (texts entries)) v
  | .doubles => Text.row (fun entries ↦ Decimal.alignedTexts (entries.map nearest)) v
  | .mixed => Text.row texts v

end Summand.Number
