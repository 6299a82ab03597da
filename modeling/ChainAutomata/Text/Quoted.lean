/-
Quoted text: a string between double quotes in which every character can be told apart on sight.

* `quote` — the quoted form: NUL, tab, carriage return, line feed, quote and backslash have short
  escapes; a grapheme extender or a character that prints nothing is written by its code point;
* `quoteText` — the same on `String`.

An extender is escaped wherever it stands, since after the opening quote it would attach to that.
-/
import ChainAutomata.Text.Numeral
import ChainAutomata.Text.Unprintable

namespace ChainAutomata.Text

/-- The written form of one character between quotes. -/
def escape (c : Char) : List Char :=
  if c = '\x00' then ['\\', '0']
  else if c = '\t' then ['\\', 't']
  else if c = '\r' then ['\\', 'r']
  else if c = '\n' then ['\\', 'n']
  else if c = '"' then ['\\', '"']
  else if c = '\\' then ['\\', '\\']
  else if isGraphemeExtender c || isUnprintable c then
    ['\\', 'u', '\x7b'] ++ digits 16 c.toNat ++ ['\x7d']
  else [c]

/-- The quoted form of a list of characters. -/
def quote (cs : List Char) : List Char :=
  '"' :: (cs.flatMap escape ++ ['"'])

/-- The quoted form of a string. -/
def quoteText (s : String) : String := String.ofList (quote s.toList)

end ChainAutomata.Text
