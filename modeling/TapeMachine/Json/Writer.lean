import TapeMachine.Json.Basic

/-!
# Writing JSON

A value is written on one line, with a blank after each comma and each colon. Every character
outside the printable ASCII range is written as an escape, so a written value holds no line break
and no character that a line-oriented tool could trip over.

## Main statements

* `escape_ascii` — an escaped character consists of printable ASCII characters
-/

namespace TapeMachine

namespace Json

/-- The two halves of a code point above U+FFFF, as escapes number it. -/
def surrogates (n : Nat) : Nat × Nat :=
  (0xD800 + (n - 0x10000) / 0x400, 0xDC00 + (n - 0x10000) % 0x400)

def unitEscape (n : Nat) : List Char := '\\' :: 'u' :: Text.hex 4 n

/-- The written form of one character of a text. -/
def escape (c : Char) : List Char :=
  if c == '"' then ['\\', '"']
  else if c == '\\' then ['\\', '\\']
  else if c == '\n' then ['\\', 'n']
  else if c == '\r' then ['\\', 'r']
  else if c == '\t' then ['\\', 't']
  else if c == '\x08' then ['\\', 'b']
  else if c == '\x0c' then ['\\', 'f']
  else if 0x20 ≤ c.toNat && c.toNat ≤ 0x7E then [c]
  else if c.toNat < 0x10000 then unitEscape c.toNat
  else unitEscape (surrogates c.toNat).1 ++ unitEscape (surrogates c.toNat).2

def writeString (s : String) : String :=
  String.ofList ('"' :: s.toList.flatMap escape ++ ['"'])

/-- The three numbers that are not finite have names. -/
def writeFloat : Binary64 → String
  | .nan => "NaN"
  | .infinity false => "Infinity"
  | .infinity true => "-Infinity"
  | x => x.text

mutual

def write : Json → String
  | .null => "null"
  | .bool true => "true"
  | .bool false => "false"
  | .int n => Int.repr n
  | .float x => writeFloat x
  | .string s => writeString s
  | .array items => "[" ++ String.intercalate ", " (writeItems items) ++ "]"
  | .object fields => "\x7b" ++ String.intercalate ", " (writeFields fields) ++ "\x7d"

/-- The items of a list in their written form. -/
def writeItems : List Json → List String
  | [] => []
  | j :: rest => write j :: writeItems rest

/-- The fields of an object in their written form. -/
def writeFields : List (String × Json) → List String
  | [] => []
  | (k, j) :: rest => (writeString k ++ ": " ++ write j) :: writeFields rest

end

theorem hexDigit_ascii {n : Nat} (h : n < 16) :
    0x20 ≤ (Text.hexDigit n).toNat ∧ (Text.hexDigit n).toNat ≤ 0x7E := by
  have hall : ∀ e ∈ List.range 16,
      0x20 ≤ (Text.hexDigit e).toNat ∧ (Text.hexDigit e).toNat ≤ 0x7E := by decide
  exact hall n (List.mem_range.mpr h)

theorem hex_ascii : ∀ (width n : Nat), ∀ c ∈ Text.hex width n, 0x20 ≤ c.toNat ∧ c.toNat ≤ 0x7E
  | 0, _, c, h => by simp [Text.hex] at h
  | width + 1, n, c, h => by
    simp only [Text.hex, List.mem_append, List.mem_singleton] at h
    rcases h with h | rfl
    · exact hex_ascii width (n / 16) c h
    · exact hexDigit_ascii (Nat.mod_lt _ (by decide))

theorem unitEscape_ascii {n : Nat} {c : Char} (h : c ∈ unitEscape n) :
    0x20 ≤ c.toNat ∧ c.toNat ≤ 0x7E := by
  simp only [unitEscape, List.mem_cons] at h
  rcases h with rfl | rfl | h
  · decide
  · decide
  · exact hex_ascii 4 n c h

theorem escape_ascii {c d : Char} (h : d ∈ escape c) : 0x20 ≤ d.toNat ∧ d.toNat ≤ 0x7E := by
  unfold escape at h
  repeat' split at h
  all_goals first
    | (simp only [List.mem_cons, List.not_mem_nil, or_false] at h
       rcases h with rfl | rfl <;> decide)
    | (rename_i hc
       simp only [Bool.and_eq_true, decide_eq_true_eq] at hc
       simp only [List.mem_singleton] at h
       exact h ▸ hc)
    | exact unitEscape_ascii h
    | (rcases List.mem_append.mp h with h | h <;> exact unitEscape_ascii h)

end Json

end TapeMachine
