/-!
# Case folding toward the Latin alphabet

Setting names and solver messages are compared after their case has been folded. The words they
are compared with are written in the basic Latin letters alone, so only the characters whose other
case is made of such letters are folded; all others stay as they are.
-/

namespace Summand.Text

/-- The small form of a character, which for two characters outside of the basic alphabet begins
with a basic letter. -/
def lowerChar (c : Char) : List Char :=
  if c = '\u0130' then ['i', '\u0307']
  else if c = '\u212a' then ['k']
  else [c.toLower]

/-- The capital form of a character, for ligatures several letters. -/
def upperChar (c : Char) : List Char :=
  match c.toNat with
  | 0xDF => ['S', 'S']
  | 0x131 => ['I']
  | 0x17F => ['S']
  | 0xFB00 => ['F', 'F']
  | 0xFB01 => ['F', 'I']
  | 0xFB02 => ['F', 'L']
  | 0xFB03 => ['F', 'F', 'I']
  | 0xFB04 => ['F', 'F', 'L']
  | 0xFB05 | 0xFB06 => ['S', 'T']
  | _ => [c.toUpper]

def lower (text : List Char) : List Char :=
  text.flatMap lowerChar

def upper (text : List Char) : List Char :=
  text.flatMap upperChar

/-- Whether `word` occurs in `text` as a run of consecutive characters. -/
def occursIn (word text : List Char) : Bool :=
  match text with
  | [] => word.isEmpty
  | c :: rest => word.isPrefixOf (c :: rest) || occursIn word rest

end Summand.Text
