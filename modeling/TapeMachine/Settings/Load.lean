import TapeMachine.Clock
import TapeMachine.FileTree
import TapeMachine.Json.Reader
import TapeMachine.Settings

/-!
# Settings files

A settings file is a JSON object, or a list of pairs. It is laid over the defaults and checked; only
then is the directory for logs made.

## Main statements

* `Settings.fieldsOf_object` — the fields of an object are laid over in their order
-/

namespace TapeMachine

namespace Settings

/-- Where the settings file is, unless another is asked for. -/
def defaultPath : String := "config/runtime_config.json"

/-- Why a settings file gives no settings. -/
inductive LoadFault where
  | noFile (path : String)
  | file (f : FileFault)
  | json (f : Json.ReadFault)
  /-- The file's value, or an item of its list, is no list, or a field's name is one. -/
  | notFields
  /-- An item of the file's list is not a pair. -/
  | notAPair
  | invalid (f : Fault)
  deriving Repr

/-- What the user is told, where there is a text for it. -/
def LoadFault.message? : LoadFault → Option String
  | noFile path => some s!"Configuration file not found at: {path}"
  | invalid f => some f.message
  | _ => none

/-! ## Fields of a file -/

def fieldOf (key value : Json) : Except LoadFault (Key × Json) :=
  match Key.ofJson? key with
  | none => .error .notFields
  | some k => .ok (k, value)

/-- The field that an item of a list gives. A text of two characters counts as a pair of texts, an
object with two fields as the pair of their names. -/
def fieldOfItem : Json → Except LoadFault (Key × Json)
  | .array [key, value] => fieldOf key value
  | .array _ => .error .notAPair
  | .string s =>
    match symbolsOf s with
    | [key, value] => .ok (.name key, .string value)
    | _ => .error .notAPair
  | .object [(key, _), (value, _)] => .ok (.name key, .string value)
  | .object _ => .error .notAPair
  | _ => .error .notFields

/-- The fields of all items, up to the first that gives none. -/
def fieldsOfItems : List Json → Except LoadFault (List (Key × Json))
  | [] => .ok []
  | item :: rest =>
    match fieldOfItem item with
    | .error e => .error e
    | .ok f => (fieldsOfItems rest).map (f :: ·)

def fieldsOf : Json → Except LoadFault (List (Key × Json))
  | .object fields => .ok (fields.map fun f => (.name f.1, f.2))
  | .array items => fieldsOfItems items
  | .string s => fieldsOfItems ((symbolsOf s).map Json.string)
  | _ => .error .notFields

theorem fieldsOf_object (fields : List (String × Json)) :
    fieldsOf (.object fields) = .ok (fields.map fun f => (.name f.1, f.2)) := rfl

/-! ## Loading -/

variable [Host]

/-- The defaults overlaid by the file at a path, before the check. -/
def readOverlay (t : FileTree) (path : String) : Except LoadFault Overlay :=
  if !t.pathExists path then .error (.noFile path)
  else match t.readText path with
    | .error e => .error (.file e)
    | .ok s =>
      match Json.read s with
      | .error e => .error (.json e)
      | .ok j => (fieldsOf j).map (overlay defaults)

/-- Reads and checks the settings file at a path, and makes the directory for logs. -/
def load (t : FileTree) (path : String) : Except LoadFault (Overlay × Settings) × FileTree :=
  match readOverlay t path with
  | .error e => (.error e, t)
  | .ok o =>
    match check o with
    | .error e => (.error (.invalid e), t)
    | .ok s =>
      -- only now, so that a bad file leaves no directory behind
      match t.makeDirectories s.outputDirectory with
      | (.error e, t) => (.error (.file e), t)
      | (.ok (), t) => (.ok (o, s), t)

omit [Host] in
def summary (o : Overlay) (now : Moment) : List String :=
  s!"[{now.spoken}] Loaded config:" ::
    o.entries.map fun (k, j) => "  " ++ k.toJson.plain ++ ": " ++ j.plain

end Settings

end TapeMachine
