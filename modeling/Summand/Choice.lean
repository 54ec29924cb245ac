import Summand.Failure

/-!
# Named choices

Where one of a few things is chosen by its name, every value that is not one of the names is refused
in the same words.
-/

namespace Summand.Choice

variable {β : Type}

/-- The failure of taking a value for the name of a member of a family. -/
def unknown (family : String) (given : Json) : Failure :=
  .raised "ValueError" (given.shown ++ " is not a valid " ++ family)

/-- The member of a family that a value names. -/
def ofJson (family : String) (name : β → String) (members : List β) (given : Json) :
    Except Failure β :=
  match given with
  | .text word =>
    match members.find? fun member ↦ name member == word with
    | some member => .ok member
    | none => .error (unknown family given)
  | _ => .error (unknown family given)

end Summand.Choice
