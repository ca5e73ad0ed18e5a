import TapeMachine.Binary64
import TapeMachine.Text.Quoted

/-!
# JSON values

The values of settings files, checkpoints and log lines. An object keeps the order of its fields.

## Main statements

* `display_list` — how a list is shown in a message
* `truth_int` — a number counts as true exactly if it is not zero
-/

namespace TapeMachine

/-- A JSON value. Whole numbers are unbounded; all other numbers are double precision. -/
inductive Json where
  | null
  | bool (b : Bool)
  | int (n : Int)
  | float (x : Binary64)
  | string (s : String)
  | array (items : List Json)
  | object (fields : List (String × Json))
  deriving Repr, Inhabited

namespace Json

/-! ## Values in messages -/

mutual

/-- A value as a message shows it: texts in quotes, lists in brackets, objects in braces. -/
def display : Json → String
  | .null => "None"
  | .bool true => "True"
  | .bool false => "False"
  | .int n => Int.repr n
  | .float x => x.text
  | .string s => Text.quote s
  | .array items => "[" ++ String.intercalate ", " (displayItems items) ++ "]"
  | .object fields => "\x7b" ++ String.intercalate ", " (displayFields fields) ++ "\x7d"

/-- The items of a list as a message shows them. -/
def displayItems : List Json → List String
  | [] => []
  | j :: rest => display j :: displayItems rest

/-- The fields of an object as a message shows them. -/
def displayFields : List (String × Json) → List String
  | [] => []
  | (k, j) :: rest => (Text.quote k ++ ": " ++ display j) :: displayFields rest

end

/-- A value as a line of output shows it: a text stands alone without quotes. -/
def plain : Json → String
  | .string s => s
  | j => j.display

/-- The word for the kind of a value in a message. -/
def kindName : Json → String
  | .null => "NoneType"
  | .bool _ => "bool"
  | .int _ => "int"
  | .float _ => "float"
  | .string _ => "str"
  | .array _ => "list"
  | .object _ => "dict"

theorem display_list : display (.array [.int 1, .string "two", .bool true]) = "[1, 'two', True]" := by
  decide +kernel

/-! ## Values as conditions and as numbers -/

/-- Whether a value counts as true: null, false, zero and what is empty do not. -/
def truth : Json → Bool
  | .null => false
  | .bool b => b
  | .int n => n != 0
  | .float (.finite _ m _) => m != 0
  | .float _ => true
  | .string s => s != ""
  | .array items => !items.isEmpty
  | .object fields => !fields.isEmpty

/-- Which side of a whole number a value is on, if it is a number; the truth values are one and
zero. -/
def compareInt? (n : Int) : Json → Option Ordering
  | .bool b => some (compare (if b then 1 else 0) n)
  | .int m => some (compare m n)
  | .float x => x.compareInt? n
  | _ => none

theorem truth_int (n : Int) : truth (.int n) = true ↔ compareInt? 0 (.int n) ≠ some .eq := by
  simp [truth, compareInt?]

/-! ## Fields of an object -/

/-- The value of a field, if the value is an object that has it. -/
def field? (j : Json) (name : String) : Option Json :=
  match j with
  | .object fields => (fields.find? fun f => f.1 = name).map Prod.snd
  | _ => none

end Json

end TapeMachine
