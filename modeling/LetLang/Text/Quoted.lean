import LetLang.Text.Printable

/-!
# `LetLang.Text.Quoted` — text between double quotes

Messages show a piece of source between double quotes. Inside them a quote and a backslash are
escaped, the four blanks with a letter of their own are written by it, and every other character that
is not printable is written by its code point in hexadecimal. Which characters count as printable is a
parameter: the form is readable back whatever the choice.

## Contents
- `escape`: what one character is written as.
- `quoteWith`: a whole text, for a given notion of printable.
-/

namespace LetLang.Text

/-- The characters that `c` is written as between double quotes. -/
def escape (printable : Char → Bool) (c : Char) : List Char :=
  if c = '\x00' then ['\\', '0']
  else if c = '\t' then ['\\', 't']
  else if c = '\r' then ['\\', 'r']
  else if c = '\n' then ['\\', 'n']
  else if c = '\"' then ['\\', '\"']
  else if c = '\\' then ['\\', '\\']
  else if printable c then [c]
  else ['\\', 'u', '\x7b'] ++ Nat.toDigits 16 c.toNat ++ ['\x7d']

/-- `text` between double quotes, each of its characters escaped as `printable` asks. -/
def quoteWith (printable : Char → Bool) (text : String) : String :=
  String.ofList ('\"' :: (text.toList.flatMap (escape printable) ++ ['\"']))

end LetLang.Text
