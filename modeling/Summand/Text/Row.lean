/-!
# Rows of words

The entries of a row stand between square brackets, separated by blanks. Lines are broken before
they get too long, and of a long row only the ends are written.
-/

namespace Summand.Text

/-! ### Lines -/

/-- A text led by blanks up to a width. -/
def indentTo (width : Nat) (text : List Char) : List Char :=
  List.replicate (width - text.length) ' ' ++ text

/-- The greatest length of a line, with the blank or the bracket in front of it. -/
def lineWidth : Nat := 74

/-- A line without the blanks at its end. -/
def withoutTrailingBlanks (line : List Char) : List Char :=
  (line.reverse.dropWhile (· == ' ')).reverse

/-- The lines that words fill, after what stands on the line at hand. Each line is led by a blank. A
word that would make the line too long begins the next one, unless it is the first of its line. -/
def fillLines (line : List Char) : List (List Char) → List Char
  | [] => line
  | word :: rest =>
    let blank : List Char := if rest.isEmpty then [] else [' ']
    if lineWidth < line.length + word.length && 1 < line.length then
      withoutTrailingBlanks line ++ '\n' :: fillLines (' ' :: word ++ blank) rest
    else fillLines (line ++ word ++ blank) rest

/-! ### Rows -/

/-- The greatest number of entries that are all written. -/
def fullCount : Nat := 1000

/-- The number of entries that are written at each end of a longer row. -/
def edgeCount : Nat := 3

/-- The words of a row: those of its entries, or those of the entries at its ends with dots between
them. The words of all entries that are written are found together. -/
def rowWords {α : Type} (words : List α → List (List Char)) (entries : List α) :
    List (List Char) :=
  if entries.length ≤ fullCount then words entries
  else
    let ends := words (entries.take edgeCount ++ entries.drop (entries.length - edgeCount))
    ends.take edgeCount ++ ['.', '.', '.'] :: ends.drop edgeCount

/-- The text of a row. -/
def row {α : Type} (words : List α → List (List Char)) (entries : List α) : String :=
  String.ofList ('[' :: (fillLines [' '] (rowWords words entries)).drop 1 ++ [']'])

end Summand.Text
