/-!
# Groups in messages

The members of a group are written between parentheses, with a comma after a lone member. The sizes
of an array are such a group.
-/

namespace Summand.Text

/-- The members of a group between parentheses. -/
def group : List String → String
  | [] => "()"
  | [member] => "(" ++ member ++ ",)"
  | members => "(" ++ ", ".intercalate members ++ ")"

/-- The sizes of an array between parentheses. -/
def shape (sizes : List Int) : String := group (sizes.map toString)

end Summand.Text
