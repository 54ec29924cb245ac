import Summand.Json.Basic
import Summand.Decimal.Reader
import Summand.Text.Integer
import Summand.Text.Units

/-!
# Reading JSON

A recursive reader over the characters of a text. Besides the standard grammar it accepts the
names of the doubles that are not finite. Numbers with a fraction or an exponent are doubles, all
others integers of any size up to the limit on written digits. A pair of escapes, one right after
the other, denotes one character, and any other half of a character is kept. Lists and objects may
be nested up to a limit. Each call consumes a character, so the length of the text bounds the
recursion.
-/

namespace Summand.Json

open Decimal (spanDigits digitsValue exponent?)

/-- Why a text is no JSON value. -/
inductive Fault where
  /-- The text breaks the grammar. -/
  | malformed
  /-- An integer has more digits than may be read. -/
  | integerTooLong (digits : Nat)
  /-- A list is nested too deep. -/
  | listTooDeep
  /-- An object is nested too deep. -/
  | objectTooDeep
  deriving Repr, DecidableEq

/-! ### Blanks and hexadecimal digits -/

def isBlank (c : Char) : Bool :=
  c == ' ' || c == '\t' || c == '\n' || c == '\r'

def skipBlanks (text : List Char) : List Char :=
  text.dropWhile isBlank

/-- The value of a hexadecimal digit. -/
def hexValue? (c : Char) : Option Nat :=
  if '0' ≤ c && c ≤ '9' then some (c.toNat - 48)
  else if 'a' ≤ c && c ≤ 'f' then some (c.toNat - 87)
  else if 'A' ≤ c && c ≤ 'F' then some (c.toNat - 55)
  else none

/-- The sixteen-bit unit that four hexadecimal digits denote. -/
def unit? : List Char → Option (Nat × List Char)
  | a :: b :: c :: d :: rest => do
    let a ← hexValue? a
    let b ← hexValue? b
    let c ← hexValue? c
    let d ← hexValue? d
    return (((a * 16 + b) * 16 + c) * 16 + d, rest)
  | _ => none

/-! ### Text -/

/-- The character that a letter after a backslash stands for. -/
def escaped? : Char → Option Char
  | '"' => some '"'
  | '\\' => some '\\'
  | '/' => some '/'
  | 'b' => some '\x08'
  | 'f' => some '\x0c'
  | 'n' => some '\n'
  | 'r' => some '\r'
  | 't' => some '\t'
  | _ => none

/-- The unit that an escape at the front of a text denotes. -/
def escapedUnit? : List Char → Option (Nat × List Char)
  | '\\' :: 'u' :: rest => unit? rest
  | _ => none

/-- What an escaped unit denotes, together with an escape right after it if both are a pair. -/
def joinEscapes (unit : Nat) (rest : List Char) : Text.Symbol × List Char :=
  match escapedUnit? rest with
  | some (next, after) =>
    if Text.isHighHalf unit && Text.isLowHalf next then
      (.character (Text.pairChar unit next), after)
    else (.ofUnit unit, rest)
  | none => (.ofUnit unit, rest)

/-- The text of symbols that were read. -/
def textOf (symbols : List Text.Symbol) : String := String.ofList (Text.ofSymbols symbols)

/-- Reads the inside of a text up to its closing quote. -/
def readText : Nat → List Char → Except Fault (List Text.Symbol × List Char)
  | 0, _ => .error .malformed
  | _ + 1, '"' :: rest => .ok ([], rest)
  | fuel + 1, '\\' :: 'u' :: rest =>
    match unit? rest with
    | none => .error .malformed
    | some (unit, rest) =>
      let (symbol, rest) := joinEscapes unit rest
      (readText fuel rest).map fun (s, r) ↦ (symbol :: s, r)
  | fuel + 1, '\\' :: c :: rest =>
    match escaped? c with
    | none => .error .malformed
    | some e => (readText fuel rest).map fun (s, r) ↦ (.character e :: s, r)
  | fuel + 1, source =>
    match Text.next? source with
    | none => .error .malformed
    | some (symbol, rest) =>
      if symbol.isControl then .error .malformed
      else (readText fuel rest).map fun (s, r) ↦ (symbol :: s, r)

/-! ### Numbers -/

/-- The fraction part, if the text begins with one: its digits and the rest. -/
def fraction? : List Char → Option (List Char × List Char)
  | '.' :: rest =>
    let (digits, rest) := spanDigits rest
    if digits.isEmpty then none else some (digits, rest)
  | _ => none

/-- Reads a number after its sign. A whole part that begins with a zero ends there. -/
def readNumber (negative : Bool) (source : List Char) : Except Fault (Json × List Char) :=
  let (digits, rest) :=
    match source with
    | '0' :: rest => (['0'], rest)
    | other => spanDigits other
  if digits.isEmpty then .error .malformed
  else
    let fraction := fraction? rest
    let afterFraction := (fraction.map Prod.snd).getD rest
    let exponent := exponent? afterFraction
    if fraction.isNone && exponent.isNone then
      if digits.length > Text.digitLimit then .error (.integerTooLong digits.length)
      else
        let n : Int := digitsValue digits
        .ok (.int (if negative then -n else n), rest)
    else
      let places := (fraction.map Prod.fst).getD []
      let (power, rest) := exponent.getD (0, afterFraction)
      let coefficient := digitsValue (digits ++ places)
      let x := Decimal.signedNearest negative coefficient (power - places.length)
      .ok (.real x, rest)

/-! ### Values -/

/-- The names of fixed values, with what each denotes. -/
def names : List (List Char × Json) :=
  [("null".toList, .null), ("true".toList, .bool true), ("false".toList, .bool false),
    ("NaN".toList, .real Binary64.notANumber),
    ("Infinity".toList, .real Binary64.positiveInfinity),
    ("-Infinity".toList, .real Binary64.negativeInfinity)]

/-- Reads one of the named values. -/
def named? (text : List Char) : Option (Json × List Char) :=
  (names.find? fun entry ↦ entry.1.isPrefixOf text).map fun entry ↦
    (entry.2, text.drop entry.1.length)

mutual

/-- Reads a value at the front of a text that does not begin with a blank, with lists and objects
nested up to a depth. -/
def readValue (depth : Nat) : Nat → List Char → Except Fault (Json × List Char)
  | 0, _ => .error .malformed
  | fuel + 1, source =>
    match source with
    | '"' :: rest => do
      let (s, rest) ← readText fuel rest
      return (.text (textOf s), rest)
    | '[' :: rest =>
      if depth = 0 then .error .listTooDeep
      else
        match skipBlanks rest with
        | ']' :: rest => .ok (.list [], rest)
        | rest => do
          let (items, rest) ← readItems (depth - 1) fuel rest
          return (.list items, rest)
    | '\x7b' :: rest =>
      if depth = 0 then .error .objectTooDeep
      else
        match skipBlanks rest with
        | '\x7d' :: rest => .ok (.object [], rest)
        | rest => do
          let (fields, rest) ← readFields (depth - 1) fuel rest
          return (.object (ofFields fields), rest)
    | other =>
      match named? other with
      | some found => .ok found
      | none =>
        match other with
        | '-' :: rest => readNumber true rest
        | unsigned => readNumber false unsigned

/-- Reads the items of a list up to its closing bracket. -/
def readItems (depth : Nat) : Nat → List Char → Except Fault (List Json × List Char)
  | 0, _ => .error .malformed
  | fuel + 1, source => do
    let (item, rest) ← readValue depth fuel source
    match skipBlanks rest with
    | ']' :: rest => return ([item], rest)
    | ',' :: rest =>
      let (items, rest) ← readItems depth fuel (skipBlanks rest)
      return (item :: items, rest)
    | _ => .error .malformed

/-- Reads the fields of an object up to its closing brace. -/
def readFields (depth : Nat) : Nat → List Char → Except Fault (List (String × Json) × List Char)
  | 0, _ => .error .malformed
  | fuel + 1, source =>
    match source with
    | '"' :: rest => do
      let (name, rest) ← readText fuel rest
      match skipBlanks rest with
      | ':' :: rest =>
        let (item, rest) ← readValue depth fuel (skipBlanks rest)
        match skipBlanks rest with
        | '\x7d' :: rest => return ([(textOf name, item)], rest)
        | ',' :: rest =>
          let (fields, rest) ← readFields depth fuel (skipBlanks rest)
          return ((textOf name, item) :: fields, rest)
        | _ => .error .malformed
      | _ => .error .malformed
    | _ => .error .malformed

end

/-- The value that a whole text denotes, with lists and objects nested up to a depth. The fuel also
covers the call that finds the text at its end. -/
def parse (depth : Nat) (source : String) : Except Fault Json := do
  let text := source.toList
  let (value, rest) ← readValue depth (text.length + 2) (skipBlanks text)
  match skipBlanks rest with
  | [] => return value
  | _ => .error .malformed

end Summand.Json
