/-!
# White space

The characters that count as blank around a setting's value: the separators of every script, and
the control characters that end lines, pages and records. Around a number those that separate
records do not count.
-/

namespace Summand.Text

def isBlank (c : Char) : Bool :=
  let code := c.toNat
  (9 ≤ code && code ≤ 13) || (28 ≤ code && code ≤ 32) || code == 0x85 || code == 0xA0 ||
    code == 0x1680 || (0x2000 ≤ code && code ≤ 0x200A) || code == 0x2028 || code == 0x2029 ||
    code == 0x202F || code == 0x205F || code == 0x3000

/-- The control characters that separate files, groups, records and units. -/
def isRecordSeparator (c : Char) : Bool := 28 ≤ c.toNat && c.toNat ≤ 31

/-- The blanks that may stand around a number. -/
def isNumberBlank (c : Char) : Bool := isBlank c && !isRecordSeparator c

/-- The text without the characters of a class at its two ends. -/
def trim (blank : Char → Bool) (text : List Char) : List Char :=
  ((text.dropWhile blank).reverse.dropWhile blank).reverse

end Summand.Text
