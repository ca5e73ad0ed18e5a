import TapeMachine.Batch.Campaign
import TapeMachine.Proofs.Folders
import TapeMachine.Sample

/-!
# Detours

A way into a directory and back leads to where it began. So a place has paths of any length, and
from some length on they are too long to be asked for: what can be done in a place depends on the
path that is taken there.

## Main statements

* `FileTree.locateFrom_detours` — detours lead back
* `Campaign.directory_detours` — the directory of a job at the end of detours
* `FileTree.makeDirectories_detours` — a directory there can be made if its path is short enough
-/

namespace TapeMachine

/-- A way into a directory and back, taken a number of times. -/
def detours : Nat → String
  | 0 => ""
  | k + 1 => "x/../" ++ detours k

def detourNames : Nat → List String
  | 0 => []
  | k + 1 => "x" :: ".." :: detourNames k

/-! ## The text of detours -/

theorem utf8ByteSize_detours (k : Nat) : (detours k).utf8ByteSize = 5 * k := by
  induction k with
  | zero => rfl
  | succ k ih =>
    have h5 : "x/../".utf8ByteSize = 5 := by decide
    rw [detours, String.utf8ByteSize_append, ih, h5]
    omega

theorem nul_not_mem_detours (k : Nat) : '\x00' ∉ (detours k).toList := by
  induction k with
  | zero => simp [detours]
  | succ k ih => simp [detours, ih]

theorem detours_succ (k : Nat) : detours (k + 1) = detours k ++ "x/../" := by
  induction k with
  | zero => decide
  | succ k ih =>
    calc detours (k + 2) = "x/../" ++ detours (k + 1) := rfl
      _ = "x/../" ++ (detours k ++ "x/../") := by rw [ih]
      _ = detours (k + 1) ++ "x/../" := String.append_assoc.symm

theorem isAbsolute_detours {k : Nat} {rest : String} (h : Path.isAbsolute rest = false) :
    Path.isAbsolute (detours k ++ rest) = false := by
  cases k with
  | zero => simpa [detours] using h
  | succ k => simp [detours, Path.isAbsolute]

theorem solidParts_detours (k : Nat) (rest : String) :
    Path.solidParts (detours k ++ rest).toList = detourNames k ++ Path.solidParts rest.toList := by
  induction k with
  | zero => simp [detours, detourNames]
  | succ k ih =>
    have hl : (detours (k + 1) ++ rest).toList =
        "x".toList ++ '/' :: ("..".toList ++ '/' :: (detours k ++ rest).toList) := by
      simp [detours]
    have hx : Path.solidParts "x".toList = ["x"] := by decide
    have hd : Path.solidParts "..".toList = [".."] := by decide
    rw [hl, Path.solidParts_slash, Path.solidParts_slash, hx, hd, ih]
    rfl

theorem steps_detours {k : Nat} {rest : String} (h : Path.isAbsolute rest = false) :
    Path.steps (detours k ++ rest) = detourNames k ++ Path.solidParts rest.toList := by
  rw [Path.steps_eq, isAbsolute_detours h, solidParts_detours]
  rfl

/-- A path under detours, which end in a slash. -/
theorem join_detours {name : String} (hs : '/' ∉ name.toList) (k : Nat) :
    Path.join (detours k) name = detours k ++ name := by
  have hend : detours k = "" ∨ (detours k).toList.getLast? = some '/' := by
    cases k with
    | zero => exact Or.inl rfl
    | succ k =>
      right
      rw [detours_succ, String.toList_append, List.getLast?_append]
      rfl
  rw [Path.join, Path.isAbsolute_of_no_slash hs, if_neg Bool.false_ne_true, if_pos hend]

theorem dot_not_mem_detourNames (k : Nat) : "." ∉ detourNames k := by
  induction k with
  | zero => simp [detourNames]
  | succ k ih => simp [detourNames, ih]

theorem intercalate_detours (k : Nat) :
    String.intercalate "/" (detourNames k ++ ["p"]) = detours k ++ "p" := by
  induction k with
  | zero => rfl
  | succ k ih =>
    have hne : detourNames k ++ ["p"] ≠ [] := by simp
    have hx : "x/../" = "x" ++ "/" ++ (".." ++ "/") := by decide
    rw [detourNames, List.cons_append, List.cons_append, String.intercalate_cons_cons,
      String.intercalate_cons_of_ne_nil hne, ih, detours, hx]
    simp only [String.append_assoc]

theorem tidy_detours (k : Nat) : Path.tidy (detours k ++ "p") = detours k ++ "p" := by
  have hroot : Path.root (detours k ++ "p") = "" :=
    Path.root_eq_empty.mpr (isAbsolute_detours (by decide))
  have hnames : Path.names (detours k ++ "p") = detourNames k ++ ["p"] := by
    have hp : Path.solidParts "p".toList = ["p"] := by decide
    have hfilter : Path.names (detours k ++ "p") =
        (Path.solidParts (detours k ++ "p").toList).filter (· ≠ ".") := by
      simp [Path.names, Path.parts, Path.solidParts, List.filter_filter, Bool.and_comm]
    rw [hfilter, solidParts_detours, hp]
    refine List.filter_eq_self.mpr ?_
    intro n hn
    rcases List.mem_append.mp hn with hn | hn
    · have hne : n ≠ "." := fun he => dot_not_mem_detourNames k (he ▸ hn)
      simpa using hne
    · obtain rfl := List.mem_singleton.mp hn
      decide
  have hne : detours k ++ "p" ≠ "" := by simp
  unfold Path.tidy
  simp only [hroot, hnames, intercalate_detours, String.empty_append, if_neg hne]

/-! ## Where detours lead -/

section

attribute [local instance] Host.usual

namespace FileTree

variable {t : FileTree}

/-- Detours lead back. -/
theorem locateFrom_detours (hx : t.node? ["x"] = some .directory) (k : Nat) (rest : List String) :
    t.locateFrom Host.home (detourNames k ++ rest) = t.locateFrom Host.home rest := by
  induction k with
  | zero => rfl
  | succ k ih =>
    have hw : t.node? Host.home = some .directory := rfl
    rw [detourNames, List.cons_append, List.cons_append, locateFrom, hw]
    simp only
    rw [if_neg (by decide), if_neg (by decide), if_neg (by decide), if_neg (by decide),
      show Host.home ++ ["x"] = ["x"] from rfl, locateFrom, hx]
    simp only
    rw [if_neg (by decide), if_neg (by decide), if_pos trivial]
    exact ih

theorem pathFault?_detours {k : Nat} {rest : String} (hnul : '\x00' ∉ rest.toList)
    (h : 5 * k + rest.utf8ByteSize ≤ longestPath) : pathFault? (detours k ++ rest) = none := by
  have hsize : (detours k ++ rest).utf8ByteSize = 5 * k + rest.utf8ByteSize := by
    rw [String.utf8ByteSize_append, utf8ByteSize_detours]
  have hnul' := nul_not_mem_detours k
  simp only [pathFault?, hsize, if_neg (Nat.not_lt.mpr h)]
  simp [hnul, hnul']

/-- What stands above the last name after detours is there. -/
theorem pathExists_detours (hx : t.node? ["x"] = some .directory) {k : Nat}
    (h : 5 * k + 4 ≤ longestPath) : t.pathExists (detours k ++ "x/..") = true := by
  have h4 : "x/..".utf8ByteSize = 4 := by decide
  have hfault : pathFault? (detours k ++ "x/..") = none :=
    pathFault?_detours (by decide) (by rw [h4]; exact h)
  have hlast : (detours k ++ "x/..").toList.getLast? ≠ some '/' := by
    rw [String.toList_append, List.getLast?_append_of_ne_nil _ (by decide)]
    decide
  have hne : detours k ++ "x/.." ≠ "" := by simp
  have hparts : Path.solidParts "x/..".toList = detourNames 1 ++ [] := by decide
  have hlead : t.locate (detours k ++ "x/..") = .ok [] := by
    simp only [locate, hfault, if_neg hne, if_neg hlast, List.append_nil]
    rw [steps_detours (by decide), hparts, locateFrom_detours hx, locateFrom_detours hx]
    rfl
  simp only [pathExists, nodeAt?, hlead]
  rfl

/-- A directory at the end of detours is made if its path is short enough. -/
theorem makeDirectories_detours (hx : t.node? ["x"] = some .directory) {name : String}
    (hn : PlainName name) (hfree : t.node? [name] = none) {k : Nat}
    (h : 5 * k + name.utf8ByteSize ≤ longestPath) :
    t.makeDirectories (detours k ++ name) = (.ok (), t.put [name] .directory) := by
  have hname : Path.solidParts name.toList = [name] := by
    rw [Path.solidParts_name (Text.ne_nil_of_ne_empty hn.ne) hn.no_slash, String.ofList_toList]
  have hlead : t.locateFrom Host.home [name] = .ok [name] := locateFrom_plain hn rfl
  have hat : t.makeAt (detours k ++ name) Host.home (Path.steps (detours k ++ name)) =
      (.ok [name], t.put [name] .directory) := by
    rw [steps_detours (Path.isAbsolute_of_no_slash hn.no_slash), hname]
    simp only [makeAt, pathFault?_detours hn.no_nul h, locateFrom_detours hx, hlead, hfree]
    rfl
  have hmade : (t.put [name] .directory).node? [name] = some .directory := by
    rw [node?_put (isAbove_eq_false_of_node? hfree nofun), if_pos rfl]
  refine makeDirectories_of_pathExists (by simp [hn.ne]) ?_ hat hmade
  cases k with
  | zero =>
    rw [detours, String.empty_append]
    exact Or.inl (Path.splitLast_of_no_slash hn.no_slash)
  | succ k =>
    right
    have hpath : detours (k + 1) ++ name = detours k ++ "x/.." ++ "/" ++ name := by
      have hx : "x/../" = "x/.." ++ "/" := by decide
      rw [detours_succ, hx]
      simp only [String.append_assoc]
    have hend : (detours k ++ "x/..").toList.getLast? ≠ some '/' := by
      rw [String.toList_append, List.getLast?_append_of_ne_nil _ (by decide)]
      decide
    rw [hpath, Path.splitLast_append hend (by simp) hn.ne hn.no_slash]
    exact pathExists_detours hx (by omega)

end FileTree

/-! ## A job at the end of detours -/

namespace Campaign

open FileTree

/-- A program, an input, and a directory to go through. -/
def detourTree : FileTree :=
  ((FileTree.empty.put ["p.tm"] (.file Sample.evens.toUTF8)).put ["in.txt"]
    (.file "aa\n".toUTF8)).put ["x"] .directory

/-- The same with the directory of the results. -/
def detourMade : FileTree := detourTree.put ["p"] .directory

/-- A job whose results stand at the end of detours. -/
def detourJob (k : Nat) (tapeSize : Int) : Job where
  program := "p.tm"
  letters := Alphabet.itemsOf Sample.evensLetters
  inputs := "in.txt"
  output := detours k
  batchSize := 256
  maxSteps := defaultMaxSteps
  tapeSize := tapeSize

/-- The directory of the job stands at the end of the detours. -/
theorem directory_detours (k : Nat) (tapeSize : Int) :
    directory (detourJob k tapeSize) = detours k ++ "p" := by
  have hstem : Path.stem "p.tm" = "p" := by decide +kernel
  calc directory (detourJob k tapeSize)
    _ = Path.tidy (Path.join (detours k) (Path.stem "p.tm")) := rfl
    _ = Path.tidy (detours k ++ "p") := by rw [hstem, join_detours (by decide)]
    _ = detours k ++ "p" := tidy_detours k

theorem plainName_p : PlainName "p" := by decide

end Campaign

end

end TapeMachine
