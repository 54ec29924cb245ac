import Summand.Solution.Document

/-!
# Solutions in files

A solution is written to a file if a path is given, and its text is the answer otherwise. Where a
solution is read from, a path and a text are told apart by whether there is a file of that name.
-/

namespace Summand

/-- The text of the file at a path, if there is one. -/
def Files := String → Option String

namespace Files

/-- Writes a text to a file, over whatever was there. -/
def write (files : Files) (path text : String) : Files :=
  fun other ↦ if other = path then some text else files other

end Files

namespace Solution

/-- Writes a solution's document to a file and answers with an empty text, or answers with the
document's text if no path is given or an empty one. A failure says nothing about the files. -/
def save (s : Solution) (path : Option String) (files : Files) :
    Except Failure (String × Files) := do
  let text ← s.toText
  match path with
  | none | some "" => return (text, files)
  | some path => return ("", files.write path text)

/-- The solution in the file of the given name, or the one that the given text describes. -/
def load (source : String) (files : Files) : Except Failure Solution :=
  ofText ((files source).getD source)

end Solution

end Summand
