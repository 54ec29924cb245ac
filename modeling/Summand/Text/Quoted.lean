import Summand.Text.Printable
import Summand.Text.Units

/-!
# Quoted text

Messages show text between single quotes, or between double quotes when the text holds a single
quote and no double one. The quote used, the backslash and every unprintable character are escaped:
line feed, tab and return by a letter, the others by two, four or eight hexadecimal digits,
whichever is the first to hold the code. A half of a pair of units that stands alone is escaped by
its four digits.
-/

namespace Summand.Text

/-- The last `width` hexadecimal digits of `n`, in small letters. -/
def hexadecimal (width n : Nat) : List Char :=
  (List.range width).reverse.map fun k ↦ Nat.digitChar (n / Nat.pow 16 k % 16)

/-- The quote that goes around a text. -/
def quoteFor (text : List Char) : Char :=
  if text.contains '\'' && !text.contains '"' then '"' else '\''

/-- What stands in quoted text for one of its characters. -/
def escape (quote c : Char) : List Char :=
  if c = quote || c = '\\' then ['\\', c]
  else if c = '\n' then ['\\', 'n']
  else if c = '\t' then ['\\', 't']
  else if c = '\r' then ['\\', 'r']
  else if isPrintable c then [c]
  else if c.toNat < 0x100 then '\\' :: 'x' :: hexadecimal 2 c.toNat
  else if c.toNat < 0x10000 then '\\' :: 'u' :: hexadecimal 4 c.toNat
  else '\\' :: 'U' :: hexadecimal 8 c.toNat

/-- What stands in quoted text for a symbol. -/
def escapeSymbol (quote : Char) : Symbol → List Char
  | .character c => escape quote c
  | .half unit => '\\' :: 'u' :: hexadecimal 4 unit

/-- The text between quotes. -/
def quoted (text : String) : String :=
  let symbols := symbols text.toList
  let quote := quoteFor (symbols.filterMap Symbol.char?)
  String.ofList (quote :: symbols.flatMap (escapeSymbol quote) ++ [quote])

/-- The first symbols of the text between quotes. -/
def quotedFront (count : Nat) (text : String) : String :=
  String.ofList ((quoted text).toList.take count)

end Summand.Text
