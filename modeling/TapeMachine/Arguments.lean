import TapeMachine.Text.Integer

/-!
# Command line arguments

A command takes switches and at most one operand. A switch may be written in full, by the beginning
of a long name that no other switch has, or by a short name with its value attached. After `--`
everything is an operand; attached to a switch, `--` is no value at all, and the switch is given
without one. A bad line ends the program, and so does a question for help.

## Termination

* `consume` — one or two arguments go at each call

## Main statements

* `Ending.code_help` — asking for help is no failure
* `store_separator` — no switch refuses to be given without a value
-/

namespace TapeMachine

namespace Arguments

/-- Why the program ends before it does anything. -/
inductive Ending where
  | help
  | badArguments
  deriving DecidableEq, Repr

def Ending.code : Ending → Nat
  | help => 0
  | badArguments => 2

theorem Ending.code_help : Ending.help.code = 0 := rfl

/-! ## What a command takes -/

/-- What a switch is for. -/
inductive Role where
  | help
  /-- It is given or not. -/
  | toggle
  /-- It has a text as its value. -/
  | text
  /-- It has a whole number as its value. -/
  | integer
  deriving DecidableEq, Repr

namespace Role

def takesValue : Role → Bool
  | text => true
  | integer => true
  | _ => false

end Role

/-- A switch with its written forms; the last one names it. -/
structure Switch where
  forms : List String
  role : Role
  needed : Bool
  deriving DecidableEq, Repr

namespace Switch

def name (s : Switch) : String := s.forms.getLast?.getD ""

def optional (role : Role) (forms : List String) : Switch := ⟨forms, role, false⟩

/-- A switch that may not be left out. -/
def required (role : Role) (forms : List String) : Switch := ⟨forms, role, true⟩

end Switch

/-- What a command takes: switches, and an operand or none. -/
structure Signature where
  switches : List Switch
  operand : Bool

namespace Signature

/-- A signature with the switch for help. -/
def new (switches : List Switch) (operand : Bool) : Signature :=
  ⟨.optional .help ["-h", "--help"] :: switches, operand⟩

def forms (g : Signature) : List (String × Switch) :=
  g.switches.flatMap fun s => s.forms.map fun f => (f, s)

/-- The switch of a written form. -/
def find? (g : Signature) (form : String) : Option Switch :=
  (g.forms.find? fun e => e.1 = form).map Prod.snd

end Signature

/-! ## What an argument is -/

/-- What stands between switches and operands. -/
def separator : String := "--"

/-- An argument by itself. -/
inductive Item where
  | operand (text : String)
  | separator
  /-- A switch, whether its form is short, and the text that is attached to it. -/
  | switch (s : Switch) (short : Bool) (attached : Option String)
  | unknown

/-- Whether a form is short: it has one hyphen only. -/
def isShort (form : String) : Bool :=
  match form.toList with
  | '-' :: '-' :: _ => false
  | _ => true

/-- A text before and after its first equals sign, if it has one. -/
def cutEquals (cs : List Char) : Option (List Char × List Char) :=
  if cs.contains '=' then
    some (cs.takeWhile (· ≠ '='), (cs.dropWhile (· ≠ '=')).drop 1)
  else none

/-- A form and what an equals sign attaches to it. -/
def splitEquals (arg : String) : String × Option String :=
  match cutEquals arg.toList with
  | none => (arg, none)
  | some (form, value) => (String.ofList form, some (String.ofList value))

/-- Whether a text looks like a number below zero; a line break may follow it. -/
def looksNegative (arg : String) : Bool :=
  let isDigit (c : Char) : Bool := (Text.digitValue? c).isSome
  match arg.toList with
  | '-' :: cs =>
    let cs := if cs.getLast? = some '\n' then cs.dropLast else cs
    let tail := cs.dropWhile isDigit
    match tail with
    | [] => !cs.isEmpty
    | '.' :: places => !places.isEmpty && places.all isDigit
    | _ => false
  | _ => false

/-- The switches that an unknown form may be short for, with what is attached. -/
def abbreviated (g : Signature) (arg : String) : List Item :=
  if isShort arg then
    let form := String.ofList (arg.toList.take 2)
    let value := String.ofList (arg.toList.drop 2)
    g.forms.filterMap fun (f, s) =>
      if f = form then some (.switch s true (some value))
      else if arg.toList.isPrefixOf f.toList then some (.switch s (isShort f) none)
      else none
  else
    let (form, attached) := splitEquals arg
    g.forms.filterMap fun (f, s) =>
      if form.toList.isPrefixOf f.toList then some (.switch s (isShort f) attached) else none

/-- What an argument is by itself. -/
def classify (g : Signature) (arg : String) : Except Ending Item :=
  if arg.toList.head? ≠ some '-' then .ok (.operand arg)
  else match g.find? arg with
    | some s => .ok (.switch s (isShort arg) none)
    | none =>
      if arg = "-" then .ok (.operand arg)
      else
        let (form, attached) := splitEquals arg
        -- a full form with a value after an equals sign goes before any abbreviation
        match attached, g.find? form with
        | some a, some s => .ok (.switch s (isShort form) (some a))
        | _, _ =>
          match abbreviated g arg with
          | [item] => .ok item
          | _ :: _ :: _ => .error .badArguments
          | [] =>
            -- no command has a switch that looks like a number
            if looksNegative arg || arg.toList.contains ' ' then .ok (.operand arg)
            else .ok .unknown

/-- What the arguments are, one by one; after the separator they are operands. -/
def classifyAll (g : Signature) : List String → Except Ending (List Item)
  | [] => .ok []
  | arg :: rest =>
    if arg = separator then .ok (.separator :: rest.map .operand)
    else do return (← classify g arg) :: (← classifyAll g rest)

/-! ## What the line says -/

/-- The switches and the operand that a line gives. -/
structure Parsed where
  /-- The switches by name with their values, in the order in which they were given. -/
  values : List (String × Option String)
  operand : Option String
  /-- Whether there is an argument that nothing takes. -/
  extra : Bool

namespace Parsed

/-- What a switch was given each time, in order. -/
def all (p : Parsed) (name : String) : List (Option String) :=
  (p.values.filter fun e => e.1 = name).map Prod.snd

def given (p : Parsed) (name : String) : Bool := p.values.any fun e => e.1 = name

/-- The last value of a switch, or another if it was not given; none if it was given without one. -/
def value (p : Parsed) (name default : String) : Option String :=
  ((p.all name).getLast?).getD (some default)

/-- The last number of a switch, or another if it was not given; none if it was given without one. -/
def number (p : Parsed) (name : String) (default : Int) : Option Int :=
  match (p.all name).getLast? with
  | none => some default
  | some value => value.bind Text.integer?

end Parsed

def store (s : Switch) (value : String) (p : Parsed) : Except Ending Parsed :=
  if value = separator then .ok { p with values := p.values ++ [(s.name, none)] }
  else if s.role = .integer ∧ Text.integer? value = none then .error .badArguments
  else .ok { p with values := p.values ++ [(s.name, some value)] }

theorem store_separator (s : Switch) (p : Parsed) :
    store s separator p = .ok { p with values := p.values ++ [(s.name, none)] } := by simp [store]

/-- Whether letters after a short switch without a value are in order: each must be a switch, up to
one that takes a value, which is attached or follows. -/
def lettersInOrder (g : Signature) (follows : Bool) : (letters : List Char) → Bool
  | [] => true
  | c :: rest =>
    match g.find? (String.ofList ['-', c]) with
    | none => false
    | some s => if s.role.takesValue then !rest.isEmpty || follows
      else lettersInOrder g follows rest

/-- Whether the next argument can be a value. -/
def followedByOperand : List Item → Bool
  | .operand _ :: _ => true
  | _ => false

/-- What a switch without a value does. The only short one asks for help, so that letters after it
only need to be in order. -/
def applyPlain (g : Signature) (s : Switch) (short : Bool) (attached : Option String)
    (rest : List Item) (p : Parsed) : Except Ending Parsed :=
  match attached with
  | none =>
    if s.role = .help then .error .help else .ok { p with values := p.values ++ [(s.name, none)] }
  | some letters =>
    if s.role = .help ∧ short ∧ letters ≠ "" ∧
        lettersInOrder g (followedByOperand rest) letters.toList then .error .help
    else .error .badArguments

/-- Takes an operand, if there is still one to take. -/
def takeOperand (g : Signature) (p : Parsed) (text : String) : Parsed :=
  if g.operand ∧ p.operand = none then { p with operand := some text } else { p with extra := true }

/-- Reads arguments one after the other. The separator belongs to the operand beside it. -/
def consume (g : Signature) (p : Parsed) : List Item → Except Ending Parsed
  | [] => .ok p
  | .unknown :: rest => consume g { p with extra := true } rest
  | .separator :: .operand text :: rest => consume g (takeOperand g p text) rest
  | .separator :: rest => consume g { p with extra := true } rest
  | .operand text :: .separator :: rest => consume g (takeOperand g p text) rest
  | .operand text :: rest => consume g (takeOperand g p text) rest
  | .switch s short attached :: rest =>
    if s.role.takesValue then
      -- a switch takes at most one of the operands after it
      match attached, rest with
      | some value, rest => do consume g (← store s value p) rest
      | none, .operand value :: rest => do consume g (← store s value p) rest
      | none, _ => .error .badArguments
    else do consume g (← applyPlain g s short attached rest p) rest
termination_by items => items.length

/-- What a line says, or why the program ends. -/
def parse (g : Signature) (args : List String) : Except Ending Parsed := do
  let items ← classifyAll g args
  let p ← consume g ⟨[], none, false⟩ items
  let missing := g.switches.any fun s => s.needed && !p.given s.name
  if missing || p.extra || (g.operand && p.operand.isNone) then .error .badArguments
  else return p

end Arguments

end TapeMachine
