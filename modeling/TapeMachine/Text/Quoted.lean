import TapeMachine.Text.Hex
import TapeMachine.Text.Printable

/-!
# Quoted texts

How a message shows a text so that its ends, its quotes and its invisible characters can be seen.

## Main statements

* `quote_empty`, `quote_apostrophe` — the two forms of quote
-/

namespace TapeMachine.Text

/-- A quoted text stands between apostrophes, unless it holds an apostrophe and no double quote. -/
def quoteMark (cs : List Char) : Char :=
  if cs.contains '\'' && !cs.contains '"' then '"' else '\''

/-- The written form of one character: a backslash before a backslash and before the quote,
short names for tab and line breaks, a number for any other character that is not printable. -/
def escapeWithin (mark c : Char) : List Char :=
  if c == '\\' || c == mark then ['\\', c]
  else if c == '\n' then ['\\', 'n']
  else if c == '\r' then ['\\', 'r']
  else if c == '\t' then ['\\', 't']
  else if isPrintable c then [c]
  else if c.toNat < 0x100 then '\\' :: 'x' :: hex 2 c.toNat
  else if c.toNat < 0x10000 then '\\' :: 'u' :: hex 4 c.toNat
  else '\\' :: 'U' :: hex 8 c.toNat

def quote (s : String) : String :=
  let mark := quoteMark s.toList
  String.ofList (mark :: s.toList.flatMap (escapeWithin mark) ++ [mark])

theorem quote_empty : quote "" = "''" := by decide +kernel

theorem quote_apostrophe : quote "it's" = "\"it's\"" := by decide +kernel

end TapeMachine.Text
