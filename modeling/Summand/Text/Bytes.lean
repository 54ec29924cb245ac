import Summand.Text.Quoted

/-!
# Texts as bytes

Text that goes to a process is written as bytes and read back from them. A half of a character has
no bytes, but for those halves that stand for a single byte each. Reading back takes every character
that the bytes hold, and a byte that begins no character is read as the half that stands for it, so
halves that stand for the bytes of a character come back as that character.
-/

namespace Summand.Text

/-- Whether a symbol is a half of a character. -/
def Symbol.isHalf : Symbol → Bool
  | .half _ => true
  | .character _ => false

/-- Whether a symbol has no bytes. -/
def Symbol.hasNoBytes : Symbol → Bool
  | .half unit => unit < 0xDC80 || 0xDCFF < unit
  | .character _ => false

/-- The position of the first symbol without bytes, and the symbols from there on. -/
def spanBytes (position : Nat) : List Symbol → Nat × List Symbol
  | [] => (position, [])
  | s :: rest => if s.hasNoBytes then (position, s :: rest) else spanBytes (position + 1) rest

/-- Why a text cannot be written as bytes, if it cannot. -/
def bytesFault? (text : List Char) : Option String :=
  let (first, rest) := spanBytes 0 (symbols text)
  let say (what : String) : Option String :=
    some ("'utf-8' codec can't encode " ++ what ++ ": surrogates not allowed")
  match rest.takeWhile Symbol.isHalf with
  | [] => none
  | [s] =>
    say ("character " ++ quoted (String.ofList s.kept) ++ " in position " ++ toString first)
  | run =>
    say ("characters in position " ++ toString first ++ "-" ++ toString (first + run.length - 1))

/-- The bytes of a symbol that has some. -/
def Symbol.bytes : Symbol → List UInt8
  | .character c => String.utf8EncodeChar c
  | .half unit => [UInt8.ofNat (unit - 0xDC00)]

/-- The character that bytes begin with, if they begin with one. -/
def firstChar? (bytes : List UInt8) : Option Char :=
  (bytes.take 4).toByteArray.utf8DecodeChar? 0

/-- What bytes denote. -/
def ofBytes : List UInt8 → List Symbol
  | [] => []
  | byte :: rest =>
    match firstChar? (byte :: rest) with
    | some c => .character c :: ofBytes (rest.drop (c.utf8Size - 1))
    | none => .half (0xDC00 + byte.toNat) :: ofBytes rest
termination_by bytes => bytes.length

/-- A text as it comes back from its bytes. -/
def reread (text : List Char) : List Char :=
  ofSymbols (ofBytes ((symbols text).flatMap Symbol.bytes))

end Summand.Text
