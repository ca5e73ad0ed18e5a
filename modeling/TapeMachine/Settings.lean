import TapeMachine.Evaluation
import TapeMachine.Table

/-!
# Settings

The program's settings have defaults. A settings file gives other values and may have more fields;
what results is checked before it is used: first that every setting is there and has the right kind,
then that sizes and counts are positive.

## Main statements

* `Settings.keptName_name` — a field that is named by a text keeps its name
* `Settings.check_defaults` — the defaults pass the check
* `Settings.ofOverlay_defaults` — and they are the default settings
-/

namespace TapeMachine

/-- What the program can be told. -/
structure Settings where
  tapeSize : Int
  maxSteps : Int
  verbose : Bool
  logResults : Bool
  batchSize : Int
  outputDirectory : String
  logPrefix : String
  deriving DecidableEq, Repr

namespace Settings

def default : Settings where
  tapeSize := defaultTapeSize
  maxSteps := defaultMaxSteps
  verbose := false
  logResults := true
  batchSize := 256
  outputDirectory := "logs/"
  logPrefix := "tmvm_"

/-! ## Fields with names -/

/-- The name of a field. A file that lists pairs instead of an object may use other scalars. -/
inductive Key where
  | name (s : String)
  | null
  | bool (b : Bool)
  | int (n : Int)
  | float (x : Binary64)
  deriving DecidableEq, Repr

namespace Key

/-- The name that a value gives; lists and objects give none. -/
def ofJson? : Json → Option Key
  | .string s => some (name s)
  | .null => some null
  | .bool b => some (bool b)
  | .int n => some (int n)
  | .float x => some (float x)
  | .array _ => none
  | .object _ => none

/-- The value that gives the name. -/
def toJson : Key → Json
  | name s => .string s
  | null => .null
  | bool b => .bool b
  | int n => .int n
  | float x => .float x

theorem ofJson?_toJson (k : Key) : ofJson? k.toJson = some k := by cases k <;> rfl

/-- Numerator and denominator of a name that is a finite number; the truth values are one and
zero. -/
def ratio? : Key → Option (Int × Nat)
  | bool b => some (if b then 1 else 0, 1)
  | int n => some (n, 1)
  | float (.finite negative m e) =>
    let (num, den) := Binary64.ratio m e
    some (if negative then -(num : Int) else num, den)
  | _ => none

/-- Whether two names are one: numbers are if they have the same value. -/
def same (a b : Key) : Bool :=
  a = b || match a.ratio?, b.ratio? with
    | some (n, d), some (n', d') => n * (d' : Int) == n' * (d : Int)
    | _, _ => false

end Key

/-- Settings as fields, in order: the defaults, overlaid by what a file says. -/
abbrev Overlay := Table Key Json

/-- The kinds of value that a setting may have. -/
inductive Kind where
  | integer
  | boolean
  | text
  deriving DecidableEq, Repr

namespace Kind

/-- Whether a value is of the kind; a boolean is no integer. -/
def accepts : Kind → Json → Bool
  | integer, .int _ => true
  | boolean, .bool _ => true
  | text, .string _ => true
  | _, _ => false

/-- The word for the kind in a message. -/
def word : Kind → String
  | integer => "int"
  | boolean => "bool"
  | text => "str"

end Kind

/-- Every setting with its kind, in the order in which they are checked. -/
def schema : List (String × Kind) :=
  [("tape_size", .integer), ("max_steps", .integer), ("verbose", .boolean),
    ("log_results", .boolean), ("batch_size", .integer), ("output_directory", .text),
    ("log_file_prefix", .text)]

/-- The settings that must be positive, in the order in which they are checked. -/
def positive : List String := ["tape_size", "max_steps", "batch_size"]

/-- The fields of settings, in the order of the schema. -/
def toOverlay (s : Settings) : Overlay := Table.ofList [
  (.name "tape_size", .int s.tapeSize), (.name "max_steps", .int s.maxSteps),
  (.name "verbose", .bool s.verbose), (.name "log_results", .bool s.logResults),
  (.name "batch_size", .int s.batchSize), (.name "output_directory", .string s.outputDirectory),
  (.name "log_file_prefix", .string s.logPrefix)]

def defaults : Overlay := default.toOverlay

/-- The name under which a field is kept among others: that of an earlier field if the two are
one. -/
def keptName (o : Overlay) (k : Key) : Key := (o.keys.find? k.same).getD k

theorem keptName_name (o : Overlay) (s : String) : keptName o (.name s) = .name s := by
  unfold keptName
  cases h : o.keys.find? (Key.same (.name s)) with
  | none => rfl
  | some k =>
    have hk := List.find?_some h
    simp only [Key.same, Key.ratio?, Bool.or_false, decide_eq_true_eq] at hk
    exact hk.symm

/-- Lays fields over others: a known field keeps its place, a new one goes to the end. -/
def overlay (o : Overlay) (fields : List (Key × Json)) : Overlay :=
  fields.foldl (fun o f => o.set (keptName o f.1) f.2) o

/-! ## The check -/

/-- Why fields are not settings. -/
inductive Fault where
  | missing (key : String)
  | wrongKind (key : String) (expected : Kind) (found : Json)
  | notPositive (key : String) (value : Int)
  deriving Repr

def Fault.message : Fault → String
  | missing key => s!"Missing required configuration key: {key}"
  | wrongKind key expected found =>
    s!"Config key '{key}' expected <class '" ++ expected.word ++ "'>, got <class '" ++
      found.kindName ++ "'>."
  | notPositive key value => s!"Config key '{key}' must be positive, got {value}."

def kindFault (o : Overlay) : String × Kind → Option Fault
  | (key, kind) =>
    match o.find? (.name key) with
    | none => some (.missing key)
    | some j => if kind.accepts j then none else some (.wrongKind key kind j)

/-- The fault of a field that must be positive. -/
def signFault (o : Overlay) (key : String) : Option Fault :=
  match o.find? (.name key) with
  | some (.int n) => if n ≤ 0 then some (.notPositive key n) else none
  | _ => none

/-- The first fault of fields: kinds first, then signs. -/
def fault? (o : Overlay) : Option Fault :=
  (schema.findSome? (kindFault o)).or (positive.findSome? (signFault o))

/-- The settings that fields give; one that is missing or of another kind has its default. -/
def ofOverlay (o : Overlay) : Settings :=
  let integer (key : String) (d : Int) : Int := match o.find? (.name key) with
    | some (.int n) => n
    | _ => d
  let boolean (key : String) (d : Bool) : Bool := match o.find? (.name key) with
    | some (.bool b) => b
    | _ => d
  let text (key : String) (d : String) : String := match o.find? (.name key) with
    | some (.string s) => s
    | _ => d
  { tapeSize := integer "tape_size" default.tapeSize
    maxSteps := integer "max_steps" default.maxSteps
    verbose := boolean "verbose" default.verbose
    logResults := boolean "log_results" default.logResults
    batchSize := integer "batch_size" default.batchSize
    outputDirectory := text "output_directory" default.outputDirectory
    logPrefix := text "log_file_prefix" default.logPrefix }

/-- The settings that fields give, if they have no fault. -/
def check (o : Overlay) : Except Fault Settings :=
  match fault? o with
  | some e => .error e
  | none => .ok (ofOverlay o)

theorem check_defaults : check defaults = .ok default := rfl

theorem ofOverlay_defaults : ofOverlay defaults = default := rfl

end Settings

end TapeMachine
