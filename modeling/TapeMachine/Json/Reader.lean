import TapeMachine.Host
import TapeMachine.Json.Basic
import TapeMachine.Table
import TapeMachine.Text.Integer

/-!
# Reading JSON

A text is first cut into tokens, and the tokens are then read one after the other with a stack of
the lists and objects that are still open. Beside the standard's values the reader takes `NaN`,
`Infinity` and `-Infinity`. Of two fields of one name the later gives the value and the earlier the
place. A byte order mark is refused. The first fault in the order of the text is the one reported:
what stands behind it is not looked at. A text with half of a surrogate pair in it is refused as well,
since no string holds it, unless it is read loosely.

## Termination

* `spanString` — one or two characters go at each call
* `tokens` — what is left of the text gets shorter with each token
* `ofTokens?` — one fold over the tokens

## Main statements

* `length_of_spanString` — a string token takes at least its closing quote
* `readToken_unreadable` — where a fault of a token is a fault of its own
-/

namespace TapeMachine

namespace Json

/-- Why a text is not read as a value. -/
inductive ReadFault where
  /-- The text does not follow the grammar. -/
  | malformed
  /-- A whole number has too many digits. -/
  | tooManyDigits
  /-- Too many lists and objects are open at one place. -/
  | tooDeep
  /-- A text is none of Unicode: it has half of a surrogate pair by itself. -/
  | loneSurrogate
  deriving DecidableEq, Repr

/-- The smallest parts of a text. -/
inductive Token where
  | openObject
  | closeObject
  | openArray
  | closeArray
  | colon
  | comma
  | scalar (value : Json)
  /-- Text that is none of these, with the fault that it is where a value is wanted. -/
  | unreadable (fault : ReadFault)

/-! ## Strings -/

/-- What a string token holds up to its closing quote, and what follows the quote. -/
def spanString : List Char → Option (List Char × List Char)
  | [] => none
  | '"' :: rest => some ([], rest)
  | '\\' :: c :: rest => (spanString rest).map fun r => ('\\' :: c :: r.1, r.2)
  | c :: rest => (spanString rest).map fun r => (c :: r.1, r.2)

theorem length_of_spanString {cs body rest : List Char} (h : spanString cs = some (body, rest)) :
    rest.length < cs.length := by
  fun_induction spanString cs generalizing body with
  | case1 => simp at h
  | case2 r => simp at h; simp [h.2]
  | case3 c r ih =>
    obtain ⟨⟨b, s⟩, hb, he⟩ := Option.map_eq_some_iff.mp h
    cases he
    have : s.length < r.length := ih hb
    simp only [List.length_cons]; omega
  | case4 c r _ _ ih =>
    obtain ⟨⟨b, s⟩, hb, he⟩ := Option.map_eq_some_iff.mp h
    cases he
    have : s.length < r.length := ih hb
    simp only [List.length_cons]; omega

/-- The character that a 16-bit unit stands for alone. A half of a pair stands for none: a text that has
one is no Unicode text, unless there is a stand-in for it. -/
def ofUnit? (standIn : Option Char) (n : Nat) : Except ReadFault Char :=
  if 0xD800 ≤ n ∧ n ≤ 0xDFFF then standIn.elim (.error .loneSurrogate) .ok else .ok (Char.ofNat n)

/-- The character of a pair of 16-bit units. -/
def ofSurrogates (high low : Nat) : Char :=
  Char.ofNat (0x10000 + (high - 0xD800) * 0x400 + (low - 0xDC00))

/-- The characters that the inside of a string token stands for. -/
def unescape (standIn : Option Char) : List Char → Except ReadFault (List Char)
  | [] => .ok []
  | '\\' :: 'u' :: a :: b :: c :: d :: rest =>
    match Text.hexNumber? [a, b, c, d], rest with
    | none, _ => .error .malformed
    | some n, '\\' :: 'u' :: e :: f :: g :: h :: rest' =>
      match Text.hexNumber? [e, f, g, h] with
      | none => .error .malformed
      | some m =>
        -- two halves make one character, anything else is read by itself
        if 0xD800 ≤ n ∧ n ≤ 0xDBFF ∧ 0xDC00 ≤ m ∧ m ≤ 0xDFFF then
          (unescape standIn rest').map (ofSurrogates n m :: ·)
        else
          (unescape standIn ('\\' :: 'u' :: e :: f :: g :: h :: rest')).bind fun cs =>
            (ofUnit? standIn n).map (· :: cs)
    | some n, rest => (unescape standIn rest).bind fun cs => (ofUnit? standIn n).map (· :: cs)
  | '\\' :: c :: rest =>
    match c with
    | '"' | '\\' | '/' => (unescape standIn rest).map (c :: ·)
    | 'b' => (unescape standIn rest).map ('\x08' :: ·)
    | 'f' => (unescape standIn rest).map ('\x0c' :: ·)
    | 'n' => (unescape standIn rest).map ('\n' :: ·)
    | 'r' => (unescape standIn rest).map ('\r' :: ·)
    | 't' => (unescape standIn rest).map ('\t' :: ·)
    | _ => .error .malformed
  | c :: rest =>
    if c == '\\' || c.toNat < 0x20 then .error .malformed else (unescape standIn rest).map (c :: ·)

/-! ## Numbers and names -/

/-- Whether a character may stand in a number or a name. -/
def isLiteralChar (c : Char) : Bool := c.isAlphanum || c == '+' || c == '-' || c == '.'

/-- The decimal digits at the front, as a number, their count, and what follows. -/
def spanDigits (cs : List Char) : Nat × Nat × List Char :=
  let ds := cs.takeWhile Char.isDigit
  (Text.ofDigits (ds.map fun c => c.toNat - 0x30), ds.length, cs.dropWhile Char.isDigit)

/-- The exponent of a number without its mark. -/
def exponent? (cs : List Char) : Option Int :=
  let (negative, cs) := match cs with
    | '-' :: rest => (true, rest)
    | '+' :: rest => (false, rest)
    | _ => (false, cs)
  match spanDigits cs with
  | (n, _ + 1, []) => some (if negative then -(n : Int) else n)
  | _ => none

/-- The part of a number after its whole digits: the digits of its fraction as a number, their
count, and its exponent. -/
def fraction? (cs : List Char) : Option (Nat × Nat × Int) :=
  let tail (digits count : Nat) : List Char → Option (Nat × Nat × Int)
    | [] => some (digits, count, 0)
    | e :: rest => if e == 'e' || e == 'E' then (exponent? rest).map (digits, count, ·) else none
  match cs with
  | '.' :: rest =>
    match spanDigits rest with
    | (_, 0, _) => none
    | (n, count, rest) => tail n count rest
  | cs => tail 0 0 cs

/-- Whether a text goes on as a fraction or an exponent does: with a point or a mark, and a digit. -/
def startsFraction : List Char → Bool
  | '.' :: c :: _ => c.isDigit
  | e :: cs =>
    (e == 'e' || e == 'E') && match cs with
      | '-' :: c :: _ | '+' :: c :: _ | c :: _ => c.isDigit
      | [] => false
  | [] => false

/-- A number: digits without a needless zero in front, then perhaps a fraction and an exponent.
Whole digits that are too many are a fault before anything behind them is. -/
def number? (negative : Bool) (cs : List Char) : Except ReadFault Json :=
  match spanDigits cs with
  | (_, 0, _) => .error .malformed
  | (n, count, rest) =>
    if cs.head? = some '0' ∧ count ≠ 1 then .error .malformed
    else if startsFraction rest then
      match fraction? rest with
      | none => .error .malformed
      | some (m, places, power) =>
        .ok (.float (.ofDecimal negative (n * Nat.pow 10 places + m) (power - places)))
    else if Text.maxDigits < count then .error .tooManyDigits
    else if rest.isEmpty then .ok (.int (if negative then -(n : Int) else n))
    else .error .malformed

/-- The value of a number or a name. -/
def literal? (cs : List Char) : Except ReadFault Json :=
  if cs = "null".toList then .ok .null
  else if cs = "true".toList then .ok (.bool true)
  else if cs = "false".toList then .ok (.bool false)
  else if cs = "NaN".toList then .ok (.float .nan)
  else if cs = "Infinity".toList then .ok (.float (.infinity false))
  else if cs = "-Infinity".toList then .ok (.float (.infinity true))
  else match cs with
    | '-' :: rest => number? true rest
    | cs => number? false cs

/-! ## Tokens -/

def isSpace (c : Char) : Bool := c == ' ' || c == '\t' || c == '\n' || c == '\r'

/-- The tokens of a text, up to the first that is unreadable. -/
def tokens (standIn : Option Char) (cs : List Char) : List Token :=
  match cs with
  | [] => []
  | c :: rest =>
    if isSpace c then tokens standIn rest
    else if c == '\x7b' then .openObject :: tokens standIn rest
    else if c == '\x7d' then .closeObject :: tokens standIn rest
    else if c == '[' then .openArray :: tokens standIn rest
    else if c == ']' then .closeArray :: tokens standIn rest
    else if c == ':' then .colon :: tokens standIn rest
    else if c == ',' then .comma :: tokens standIn rest
    else if c == '"' then
      match h : spanString rest with
      | none => [.unreadable .malformed]
      | some (body, rest') =>
        have : rest'.length < rest.length := length_of_spanString h
        match unescape standIn body with
        | .error e => [.unreadable e]
        | .ok s => .scalar (.string (String.ofList s)) :: tokens standIn rest'
    else if isLiteralChar c then
      have : (rest.dropWhile isLiteralChar).length ≤ rest.length :=
        (List.dropWhile_sublist isLiteralChar).length_le
      match literal? (c :: rest.takeWhile isLiteralChar) with
      | .error e => [.unreadable e]
      | .ok j => .scalar j :: tokens standIn (rest.dropWhile isLiteralChar)
    else [.unreadable .malformed]
termination_by cs.length

/-! ## Values -/

/-- A list or an object that is still open. -/
inductive Frame where
  /-- A list with its items so far in reverse. -/
  | array (items : List Json)
  /-- An object with its fields so far, and the name of the field whose value comes next. -/
  | object (fields : List (String × Json)) (name : String)

/-- What the reader expects next. -/
inductive Want where
  | value
  /-- A first item of a list, or its end. -/
  | itemOrEnd
  /-- A comma, or the end of the innermost list or object. -/
  | more
  /-- The name of a field of an object with these fields. -/
  | name (fields : List (String × Json))
  /-- A first name of an object, or its end. -/
  | nameOrEnd
  /-- The colon after the name in the innermost object. -/
  | colon
  /-- Nothing: the text's value is complete. -/
  | nothing (value : Json)

/-- Puts a complete value where it belongs: into the innermost open list or object, or at the
root. -/
def place (j : Json) : List Frame → Want × List Frame
  | [] => (.nothing j, [])
  | .array items :: rest => (.more, .array (j :: items) :: rest)
  | .object fields name :: rest => (.more, .object (Table.put name j fields) name :: rest)

/-- Opens a list or an object within those that are open. -/
def openWithin [Host] (stack : List Frame) (opened : Want × List Frame) :
    Except ReadFault (Want × List Frame) :=
  if Host.mostOpen ≤ stack.length then .error .tooDeep else .ok opened

/-- Nothing is too deep at the root. -/
theorem openWithin_nil [Host] (opened : Want × List Frame) : openWithin [] opened = .ok opened :=
  if_neg (Nat.not_le.mpr Host.mostOpen_pos)

def readToken [Host] (s : Want × List Frame) (t : Token) : Except ReadFault (Want × List Frame) :=
  match s.1, t, s.2 with
  | .value, .scalar j, stack | .itemOrEnd, .scalar j, stack => .ok (place j stack)
  | .value, .openArray, stack | .itemOrEnd, .openArray, stack =>
    openWithin stack (.itemOrEnd, .array [] :: stack)
  | .value, .openObject, stack | .itemOrEnd, .openObject, stack =>
    openWithin stack (.nameOrEnd, stack)
  | .value, .unreadable fault, _ | .itemOrEnd, .unreadable fault, _ => .error fault
  | .itemOrEnd, .closeArray, .array items :: stack => .ok (place (.array items.reverse) stack)
  | .more, .closeArray, .array items :: stack => .ok (place (.array items.reverse) stack)
  | .more, .closeObject, .object fields _ :: stack => .ok (place (.object fields) stack)
  | .more, .comma, .array items :: stack => .ok (.value, .array items :: stack)
  | .more, .comma, .object fields _ :: stack => .ok (.name fields, stack)
  | .nameOrEnd, .closeObject, stack => .ok (place (.object []) stack)
  | .nameOrEnd, .unreadable .loneSurrogate, _ | .name _, .unreadable .loneSurrogate, _ =>
    .error .loneSurrogate
  | .nameOrEnd, .scalar (.string name), stack => .ok (.colon, .object [] name :: stack)
  | .name fields, .scalar (.string name), stack => .ok (.colon, .object fields name :: stack)
  | .colon, .colon, stack => .ok (.value, stack)
  | _, _, _ => .error .malformed

def ofTokens? [Host] (ts : List Token) : Except ReadFault Json :=
  match ts.foldlM readToken (.value, []) with
  | .ok (.nothing j, _) => .ok j
  | .ok _ => .error .malformed
  | .error e => .error e

/-- An unreadable value is a fault of its own only where a value is wanted, half of a surrogate pair also
where a name is. -/
theorem readToken_unreadable [Host] (want : Want) (stack : List Frame) (fault : ReadFault) :
    readToken (want, stack) (.unreadable fault) = .error (match want with
      | .value => fault
      | .itemOrEnd => fault
      | .nameOrEnd => if fault = .loneSurrogate then fault else .malformed
      | .name _ => if fault = .loneSurrogate then fault else .malformed
      | _ => .malformed) := by
  cases want <;> cases fault <;> rfl

/-- The value that a text writes. -/
def read [Host] (s : String) : Except ReadFault Json := ofTokens? (tokens none s.toList)

/-- The value that a text writes, with the replacement character for every half of a surrogate pair by
itself. Names that differ in such halves only become one. -/
def readLoosely [Host] (s : String) : Except ReadFault Json :=
  ofTokens? (tokens (some '\uFFFD') s.toList)

end Json

end TapeMachine
