import TapeMachine.FileTree.Path
import TapeMachine.Host
import TapeMachine.Table
import TapeMachine.Text.Newline

/-!
# File trees

The files and directories that the program can see, as a value: what is read comes from it, and what
is written gives a new one. A location is the list of names from the root. The working directory and
those that hold it are always there. Every directory can be entered, nothing that stands at a location
is a link, and there is room for whatever is written.

## Main statements

* `FileTree.node?_home` — the working directory is there
* `FileTree.node?_put` — putting something at a location changes that location only
* `FileTree.put_put`, `FileTree.put_comm` — things put one after the other
* `FileTree.read_of_locate` — what is read at a path is the file at its location
-/

namespace TapeMachine

/-- Why a file or directory cannot be used. -/
inductive FileFault where
  | notFound
  /-- A file is wanted, but there is a directory. -/
  | isDirectory
  /-- A directory is wanted on the way, but there is a file. -/
  | notDirectory
  /-- A new directory is wanted, but the place is taken. -/
  | taken
  /-- The path holds a NUL character. -/
  | nulInPath
  /-- The path, or a name in it, is longer than a file system takes. -/
  | nameTooLong
  /-- Too many directories would have to be made for one path. -/
  | tooDeep
  /-- The file may not be read, or the place may not be written. -/
  | denied
  /-- The file is not UTF-8. -/
  | notText
  deriving DecidableEq, Repr

namespace Location

variable [Host]

/-- Whether a location is the working directory or one that holds it. -/
def isAbove (l : Location) : Bool := l.isPrefixOf Host.home

/-- Whether a location is below the working directory. -/
def isBelow (l : Location) : Bool := Host.home.isPrefixOf l && l ≠ Host.home

/-- The path to a location: from the working directory if it is below that, else from the root. -/
def path (l : Location) : String :=
  if l.isBelow then String.intercalate "/" (l.drop Host.home.length)
  else "/" ++ String.intercalate "/" l

end Location

/-- What stands at a location. -/
inductive Node where
  | file (bytes : ByteArray)
  | directory

/-- Two files are equal if their bytes are. -/
instance : DecidableEq Node
  | .file a, .file b =>
    if h : a.data = b.data then isTrue (congrArg Node.file (ByteArray.ext h))
    else isFalse fun e => h (congrArg ByteArray.data (Node.file.inj e))
  | .directory, .directory => isTrue rfl
  | .file _, .directory => isFalse nofun
  | .directory, .file _ => isFalse nofun

/-- Files and directories by location; the directories that are always there are not listed. -/
structure FileTree where
  nodes : Table Location Node

namespace FileTree

def empty : FileTree := ⟨Table.empty⟩

instance : Inhabited FileTree := ⟨empty⟩

def put (t : FileTree) (l : Location) (n : Node) : FileTree := ⟨t.nodes.set l n⟩

theorem put_put (t : FileTree) (l : Location) (n n' : Node) : (t.put l n).put l n' = t.put l n' := by
  unfold put
  rw [Table.set_set]

/-- Where something was put already, it can be replaced before or after another place is changed. -/
theorem put_comm (t : FileTree) {l l' : Location} (hne : l ≠ l') (n n₁ n' : Node) :
    (((t.put l n).put l' n').put l n₁) = (t.put l n₁).put l' n' := by
  have hk : l ∈ (t.nodes.set l n).keys := by
    rw [Table.keys_set]
    split
    · assumption
    · simp
  unfold put
  rw [Table.set_comm hne hk, Table.set_set]

/-! ## Texts of files -/

/-- The text that bytes are the UTF-8 form of, with every line ended by LF. -/
def decode (bytes : ByteArray) : Except FileFault String :=
  match String.fromUTF8? bytes with
  | none => .error .notText
  | some s => .ok (String.ofList (Text.unifyNewlines s.toList))

/-- The bytes of a text stand for the text, with every line ended by LF. -/
theorem decode_utf8 (s : String) : decode s.toUTF8 = .ok (String.ofList (Text.unifyNewlines s.toList)) := by
  have hv : s.toUTF8.IsValidUTF8 := s.isValidUTF8
  have hs : String.fromUTF8? s.toUTF8 = some s := by
    rw [String.fromUTF8?, dif_pos hv]
    rfl
  simp only [decode, hs]

/-- A text without CR is read as it was written. -/
theorem decode_toUTF8 {s : String} (h : '\r' ∉ s.toList) : decode s.toUTF8 = .ok s := by
  rw [decode_utf8, Text.unifyNewlines_of_no_cr h, String.ofList_toList]

variable [Host]

/-! ## Locations -/

/-- What stands at a location. -/
def node? (t : FileTree) (l : Location) : Option Node :=
  if l.isAbove then some .directory else t.nodes.find? l

theorem node?_put {t : FileTree} {l : Location} {n : Node} (h : l.isAbove = false) (l' : Location) :
    (t.put l n).node? l' = if l = l' then some n else t.node? l' := by
  unfold node? put
  rw [Table.find?_set]
  by_cases hl : l = l'
  · subst hl; simp [h]
  · simp [hl]

theorem node?_home (t : FileTree) : t.node? Host.home = some .directory :=
  if_pos (List.isPrefixOf_iff_prefix.mpr List.prefix_rfl)

/-- The longest name that a file can have, in bytes. -/
def longestName : Nat := 255

/-- The longest path that can be asked for, in bytes. -/
def longestPath : Nat := 4095

/-- The location that names lead to from a directory. Every name but the last must be that of a
directory; `..` leads to the directory above, and `/` to the root, which has none above it. -/
def locateFrom (t : FileTree) (l : Location) : List String → Except FileFault Location
  | [] => .ok l
  | name :: rest =>
    match t.node? l with
    | none => .error .notFound
    | some (.file _) => .error .notDirectory
    | some .directory =>
      if name = "/" then t.locateFrom [] rest
      else if name = "." then t.locateFrom l rest
      else if name = ".." then t.locateFrom l.dropLast rest
      else if longestName < name.utf8ByteSize then .error .nameTooLong
      else t.locateFrom (l ++ [name]) rest

/-- What is wrong with a path before any name in it is looked up. -/
def pathFault? (path : String) : Option FileFault :=
  if path.toList.contains '\x00' then some .nulInPath
  else if longestPath < path.utf8ByteSize then some .nameTooLong
  else none

/-- The location that a path means. A path of nothing means none, and a slash at the end asks for a
directory. -/
def locate (t : FileTree) (path : String) : Except FileFault Location :=
  match pathFault? path with
  | some e => .error e
  | none =>
    if path = "" then .error .notFound
    else t.locateFrom Host.home
      (Path.steps path ++ if path.toList.getLast? = some '/' then ["."] else [])

/-- What stands at the end of a path. -/
def nodeAt? (t : FileTree) (path : String) : Option Node :=
  match t.locate path with
  | .ok l => t.node? l
  | .error _ => none

theorem nodeAt?_of_locate {t : FileTree} {path : String} {l : Location}
    (h : t.locate path = .ok l) : t.nodeAt? path = t.node? l := by
  simp only [nodeAt?, h]

/-- Whether there is anything at the end of a path. -/
def pathExists (t : FileTree) (path : String) : Bool := (t.nodeAt? path).isSome

/-- Whether there is anything at the end of a path, if that can be asked: of a path that is too long
it cannot. -/
def probe (t : FileTree) (path : String) : Except FileFault Bool :=
  match t.locate path with
  | .error .nameTooLong => .error .nameTooLong
  | _ => .ok (t.pathExists path)

/-! ## Reading -/

/-- The bytes of the file at the end of a path. -/
def read (t : FileTree) (path : String) : Except FileFault ByteArray :=
  match t.locate path with
  | .error e => .error e
  | .ok l =>
    match t.node? l with
    | none => .error .notFound
    | some .directory => .error .isDirectory
    | some (.file bytes) => if Host.mayRead l then .ok bytes else .error .denied

/-- The text of the file at the end of a path. -/
def readText (t : FileTree) (path : String) : Except FileFault String :=
  match t.read path with
  | .error e => .error e
  | .ok bytes => decode bytes

theorem read_of_locate {t : FileTree} {path : String} {l : Location} {bytes : ByteArray}
    (hl : t.locate path = .ok l) (hn : t.node? l = some (.file bytes)) (hr : Host.mayRead l = true) :
    t.read path = .ok bytes := by simp [read, hl, hn, hr]

theorem isSome_nodeAt?_of_readText {t : FileTree} {path text : String}
    (h : t.readText path = .ok text) : (t.nodeAt? path).isSome = true := by
  unfold readText read at h
  unfold nodeAt?
  cases hl : t.locate path with
  | error e => simp [hl] at h
  | ok l =>
    cases hn : t.node? l with
    | none => simp [hl, hn] at h
    | some n => simp [hn]

/-! ## Writing -/

/-- The tree with a file's bytes replaced by a function of them; a file that is not there counts as
empty. -/
def modify (t : FileTree) (path : String) (f : ByteArray → ByteArray) : Except FileFault FileTree :=
  match t.locate path with
  | .error e => .error e
  | .ok l =>
    match t.node? l with
    | some .directory => .error .isDirectory
    | some (.file bytes) =>
      if Host.mayWrite l then .ok (t.put l (.file (f bytes))) else .error .denied
    | none =>
      if Host.mayWrite l then .ok (t.put l (.file (f ByteArray.empty))) else .error .denied

/-- Writes a text, in place of what the file held. -/
def write (t : FileTree) (path text : String) : Except FileFault FileTree :=
  t.modify path fun _ => text.toUTF8

/-- Writes a text after what the file holds. -/
def append (t : FileTree) (path text : String) : Except FileFault FileTree :=
  t.modify path fun bytes => bytes ++ text.toUTF8

/-! ## Directories -/

/-- Makes a directory at the end of names that are followed from a location, for a path; what is
there already stays. The location of what is there then. -/
def makeAt (t : FileTree) (path : String) (l : Location) (names : List String) :
    Except FileFault Location × FileTree :=
  match pathFault? path with
  | some e => (.error e, t)
  | none =>
    match t.locateFrom l names with
    | .error e => (.error e, t)
    | .ok l =>
      if (t.node? l).isSome then (.ok l, t)
      else if Host.mayWrite l then (.ok l, t.put l .directory)
      else (.error .denied, t)

/-- Makes the directory of a path and those above it, as many as a number says at most. A file in the
place of one is found out only when something is to be made below it. Directories that were made
stay if a later one fails. -/
def makeWithin : Nat → FileTree → String → Except FileFault Location × FileTree
  | 0, t, _ => (.error .tooDeep, t)
  | most + 1, t, path =>
    let (above, name) := Path.splitLast path
    if above = "" || name = "" || t.pathExists above then t.makeAt path Host.home (Path.steps path)
    else match makeWithin most t above with
      | (.ok l, t) => if name = "." then (.ok l, t) else t.makeAt path l [name]
      | failed => failed

/-- Makes the directory of a path and those above it; one that is there already will do. -/
def makeDirectories (t : FileTree) (path : String) : Except FileFault Unit × FileTree :=
  if path = "" then (.error .notFound, t)
  else match makeWithin Host.mostMade t path with
    | (.error e, t) => (.error e, t)
    | (.ok l, t) =>
      -- a dot at the end asks only for what is above
      if t.node? l ≠ some .directory ∧ (Path.splitLast path).2 ≠ "." then (.error .taken, t)
      else (.ok (), t)

/-- The tree with a file and the directories above it. -/
def install (t : FileTree) (path : String) (bytes : ByteArray) : FileTree :=
  let l := Host.home ++ Path.names path
  let above := (List.range l.length).drop (Host.home.length + 1)
  let t := above.foldl (fun t n => t.put (l.take n) .directory) t
  t.put l (.file bytes)

/-! ## Listing -/

/-- The paths of all directories below the working directory, in alphabetical order. -/
def directories (t : FileTree) : List String :=
  (t.nodes.entries.filterMap fun (l, n) =>
    match n with
    | .directory => if l.isBelow then some l.path else none
    | .file _ => none).mergeSort (· ≤ ·)

/-- The files below the working directory that are new or differ from what another tree has at their
place. -/
def changes (old new : FileTree) : List (String × ByteArray) :=
  new.nodes.entries.filterMap fun (l, n) =>
    match n with
    | .directory => none
    | .file bytes =>
      if !l.isBelow || old.node? l = some (.file bytes) then none else some (l.path, bytes)

/-- What is listed and not below the working directory. -/
def outside (t : FileTree) : List String :=
  (t.nodes.keys.filter fun l => !l.isBelow).map Location.path

end FileTree

end TapeMachine
