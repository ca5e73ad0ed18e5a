/-!
# Paths

A path is a text of names with slashes between them. Empty names and the name `.` say nothing and
are dropped where a path is shown; `..` stays, for what it means depends on the files.

## Main statements

* `Path.join_absolute` — a path from the root is not put under another
* `Path.root_eq_empty` — a path shows no root exactly if it does not start there
-/

namespace TapeMachine

namespace Path

/-- The parts of a path between its slashes. -/
def parts (path : String) : List String := (path.toList.splitOn '/').map String.ofList

/-- Whether a path starts at the root of the file system. -/
def isAbsolute (path : String) : Bool := path.toList.head? == some '/'

/-- What a path shows of the root: two slashes in front stand for themselves, three or more say no
more than one. -/
def root (path : String) : String :=
  match path.toList with
  | '/' :: '/' :: '/' :: _ => "/"
  | '/' :: '/' :: _ => "//"
  | '/' :: _ => "/"
  | _ => ""

theorem root_eq_empty {path : String} : root path = "" ↔ isAbsolute path = false := by
  unfold root isAbsolute
  split
  next h => simp [h]
  next h => simp [h]
  next h => simp [h]
  next h =>
    cases hp : path.toList with
    | nil => simp
    | cons c cs =>
      have hc : c ≠ '/' := fun e => h cs (by rw [hp, e])
      simp [hc]

/-- The names of a path that say something. -/
def names (path : String) : List String := (parts path).filter fun n => n ≠ "" ∧ n ≠ "."

/-- The path without what says nothing; a path of nothing is `.`. -/
def tidy (path : String) : String :=
  let shown := root path ++ String.intercalate "/" (names path)
  if shown = "" then "." else shown

/-- What to follow from the working directory, one after the other, to get to the end of a path: the
root as `/`, then the names. -/
def steps (path : String) : List String :=
  (if isAbsolute path then ["/"] else []) ++ (parts path).filter (· ≠ "")

/-- A path up to its last name without the slashes between, and that name. Slashes at the end do not
count; a path without a name has nothing above it. -/
def splitLast (path : String) : String × String :=
  let reversed := path.toList.reverse.dropWhile (· = '/')
  let before := reversed.dropWhile (· ≠ '/')
  let above := before.dropWhile (· = '/')
  (String.ofList (if above.isEmpty then before else above).reverse,
    String.ofList (reversed.takeWhile (· ≠ '/')).reverse)

/-- A path under another; one from the root stays as it is. -/
def join (directory path : String) : String :=
  if isAbsolute path then path
  else if directory = "" ∨ directory.toList.getLast? = some '/' then directory ++ path
  else directory ++ "/" ++ path

theorem join_absolute {directory path : String} (h : isAbsolute path = true) :
    join directory path = path := by simp [join, h]

def lastName (path : String) : String := ((names path).getLast?).getD ""

/-- The last name without its extension: without its last dot and what follows, unless the dot
stands at either end of the name. -/
def stem (path : String) : String :=
  let name := (lastName path).toList
  let extension := name.reverse.takeWhile (· ≠ '.')
  let base := name.take (name.length - extension.length - 1)
  if extension.length = name.length ∨ extension = [] ∨ base = [] then lastName path
  else String.ofList base

end Path

end TapeMachine
