/-!
# Words of a command line

A typed line is split into words at spaces, tabs and line breaks. Quotes keep them together:
apostrophes keep everything as it is, between double quotes a backslash escapes a double quote or a
backslash. Outside quotes a backslash escapes any character. Parts that touch make one word, and
two quotes with nothing between them make an empty word.

## Termination

`scan` reads one character at each call.

## Main statements

* `words_quoted` — a small line with every kind of quoting
-/

namespace TapeMachine.Text

/-- Why a line cannot be split. -/
inductive WordFault where
  | openQuote
  | loneBackslash
  deriving DecidableEq, Repr

namespace WordFault

def message : WordFault → String
  | openQuote => "No closing quotation"
  | loneBackslash => "No escaped character"

end WordFault

/-- Where the reader of a line stands. The characters of the word so far are kept in reverse. -/
inductive WordMode where
  /-- Between words. -/
  | gap
  /-- In a word, outside quotes. -/
  | bare (word : List Char)
  /-- After a backslash outside quotes. -/
  | escaped (word : List Char)
  /-- Between apostrophes. -/
  | single (word : List Char)
  /-- Between double quotes. -/
  | double (word : List Char)
  /-- After a backslash between double quotes. -/
  | doubleEscaped (word : List Char)

def separatesWords (c : Char) : Bool := c == ' ' || c == '\t' || c == '\r' || c == '\n'

/-- What a character does outside quotes, given the word so far. -/
def enterWord (word : List Char) (c : Char) : WordMode :=
  if c == '\'' then .single word
  else if c == '"' then .double word
  else if c == '\\' then .escaped word
  else .bare (c :: word)

/-- The words from a reading position on. -/
def scan : WordMode → List Char → Except WordFault (List String)
  | .gap, [] => .ok []
  | .gap, c :: rest => if separatesWords c then scan .gap rest else scan (enterWord [] c) rest
  | .bare word, [] => .ok [String.ofList word.reverse]
  | .bare word, c :: rest =>
    if separatesWords c then (scan .gap rest).map (String.ofList word.reverse :: ·)
    else scan (enterWord word c) rest
  | .escaped _, [] => .error .loneBackslash
  | .escaped word, c :: rest => scan (.bare (c :: word)) rest
  | .single _, [] => .error .openQuote
  | .single word, c :: rest =>
    if c == '\'' then scan (.bare word) rest else scan (.single (c :: word)) rest
  | .double _, [] => .error .openQuote
  | .double word, c :: rest =>
    if c == '"' then scan (.bare word) rest
    else if c == '\\' then scan (.doubleEscaped word) rest
    else scan (.double (c :: word)) rest
  | .doubleEscaped _, [] => .error .loneBackslash
  | .doubleEscaped word, c :: rest =>
    if c == '"' || c == '\\' then scan (.double (c :: word)) rest
    else scan (.double (c :: '\\' :: word)) rest

def words (line : String) : Except WordFault (List String) := scan .gap line.toList

/-- A word between double quotes, with a backslash before every backslash and double quote. -/
def doubleQuoted (word : String) : String :=
  "\"" ++ String.ofList (word.toList.flatMap fun c =>
    if c == '"' || c == '\\' then ['\\', c] else [c]) ++ "\""

theorem words_quoted : words "a 'b c'd \"\" e\\ f" = .ok ["a", "b cd", "", "e f"] := by
  rfl

end TapeMachine.Text
