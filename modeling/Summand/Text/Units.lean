/-!
# Sixteen-bit units

A character is written as one unit, or beyond the first plane as two, a high half and a low half.
Units can also hold what no character stands for, a half without its partner. A text keeps such a
half as a mark with a private character behind it, and doubles a mark that is its own. So every
sequence of units has its text, and parts of a text keep their units wherever they are put.
-/

namespace Summand.Text

/-! ### Symbols -/

/-- What a text is made of. -/
inductive Symbol where
  | character (c : Char)
  /-- A half whose partner is missing. -/
  | half (unit : Nat)

/-- The character that stands before the one that a half is kept as. -/
def mark : Char := Char.ofNat 0x10FFFF

/-- The first of the private characters that halves are kept as. -/
def firstPrivate : Nat := 0x10F000

namespace Symbol

/-- The characters by which a text keeps a symbol. -/
def kept : Symbol → List Char
  | .character c => if c = mark then [mark, mark] else [c]
  | .half unit => [mark, Char.ofNat (firstPrivate + (unit - 0xD800))]

/-- The symbol that is kept as a mark and another character. -/
def marked (c : Char) : Symbol :=
  if firstPrivate ≤ c.toNat && c.toNat < firstPrivate + 0x800 then
    .half (0xD800 + (c.toNat - firstPrivate))
  else .character c

def char? : Symbol → Option Char
  | .character c => some c
  | .half _ => none

/-- Whether a symbol is a control character of the basic alphabet. -/
def isControl (s : Symbol) : Bool := s.char?.any fun c ↦ c.toNat < 32

end Symbol

/-- The first symbol of a text, and the rest of the text. -/
def next? : List Char → Option (Symbol × List Char)
  | [] => none
  | [c] => some (.character c, [])
  | c :: d :: rest =>
    if c = mark then some (.marked d, rest) else some (.character c, d :: rest)

/-- The symbols of a text. -/
def symbols : List Char → List Symbol
  | [] => []
  | [c] => [.character c]
  | c :: d :: rest =>
    if c = mark then .marked d :: symbols rest else .character c :: symbols (d :: rest)

/-- The text of given symbols. -/
def ofSymbols (symbols : List Symbol) : List Char := symbols.flatMap Symbol.kept

/-- The text of given characters. -/
def ofCharacters (characters : List Char) : List Char :=
  characters.flatMap fun c ↦ Symbol.kept (.character c)

/-! ### Units -/

/-- The units of a character. -/
def charUnits (c : Char) : List Nat :=
  if c.toNat < 0x10000 then [c.toNat]
  else [0xD800 + (c.toNat - 0x10000) / 0x400, 0xDC00 + (c.toNat - 0x10000) % 0x400]

/-- The units of a symbol. -/
def Symbol.units : Symbol → List Nat
  | .character c => charUnits c
  | .half unit => [unit]

/-- The units of a text. -/
def units (text : List Char) : List Nat := (symbols text).flatMap Symbol.units

def isHighHalf (unit : Nat) : Bool := 0xD800 ≤ unit && unit < 0xDC00

def isLowHalf (unit : Nat) : Bool := 0xDC00 ≤ unit && unit < 0xE000

/-- What a single unit stands for. -/
def Symbol.ofUnit (unit : Nat) : Symbol :=
  if isHighHalf unit || isLowHalf unit then .half unit else .character (Char.ofNat unit)

/-- The character that a pair of halves denotes. -/
def pairChar (high low : Nat) : Char :=
  Char.ofNat (0x10000 + (high - 0xD800) * 0x400 + (low - 0xDC00))

end Summand.Text
