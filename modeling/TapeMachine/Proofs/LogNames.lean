import TapeMachine.Journal
import TapeMachine.Proofs.Folders

/-!
# Where logs stand

Each log of a journal is found under its own name in the journal's directory. The names of the two logs
of verdicts differ, so they have different places. The name of the main log comes from a prefix that can
be chosen; the main log has a place of its own unless its name is that of a verdict's log.

## Main statements

* `Journal.exists_above_of_locate_log` — a log is found under its own name
* `Journal.eq_of_locate_verdictLog` — the logs of the two verdicts have different places
* `Journal.apart_of_ne` — a main log with a name of its own has a place of its own
-/

namespace TapeMachine

theorem slash_not_mem_date (now : Moment) : '/' ∉ now.date.toList := by
  have hpad : ∀ width n, '/' ∉ (Moment.pad width n).toList := by
    intro width n h
    simp only [Moment.pad, String.toList_ofList, List.mem_append, List.mem_replicate, Nat.repr] at h
    rcases h with ⟨-, h⟩ | h
    · exact absurd h (by decide)
    · exact absurd (Nat.isDigit_of_mem_toDigits (by decide) (by decide) h) (by decide)
  simp [Moment.date, hpad]

namespace Journal

open FileTree

/-- A log of a day is found under its own name. -/
theorem exists_above_of_locate_log [Host] {dir first today : String} {t : FileTree} {l : Location}
    (hd : dir ≠ "") (hfirst : '/' ∉ first.toList) (htoday : '/' ∉ today.toList)
    (h : t.locate (Path.join dir (first ++ today ++ ".jsonl")) = .ok l) :
    ∃ above, l = above ++ [first ++ today ++ ".jsonl"] := by
  have hlength : (first ++ today ++ ".jsonl").length = first.length + today.length + 6 := by
    rw [String.length_append, String.length_append]
    rfl
  have hs : '/' ∉ (first ++ today ++ ".jsonl").toList := by simp [hfirst, htoday]
  refine exists_above_of_locate_join hd ?_ hs ?_ ?_ h
  all_goals
    intro he
    rw [he] at hlength
    have hshort : ("" : String).length = 0 ∧ ".".length = 1 ∧ "..".length = 2 := by decide
    omega

variable {t : FileTree} {j : Journal}

/-- The first part of the name of a verdict's log. -/
def verdictPrefix (accepted : Bool) : String := if accepted then "accepted_" else "rejected_"

theorem verdictLog_eq (j : Journal) (accepted : Bool) : j.verdictLog accepted =
    Path.join j.directory (verdictPrefix accepted ++ j.today ++ ".jsonl") := by
  cases accepted <;> rfl

/-- The log of a verdict is found under its own name. -/
theorem exists_above_of_locate_verdictLog [Host] (hd : j.directory ≠ "") (htoday : '/' ∉ j.today.toList)
    {accepted : Bool} {l : Location} (h : t.locate (j.verdictLog accepted) = .ok l) :
    ∃ above, l = above ++ [verdictPrefix accepted ++ j.today ++ ".jsonl"] := by
  rw [verdictLog_eq] at h
  exact exists_above_of_locate_log hd (by cases accepted <;> decide) htoday h

/-- The logs of the two verdicts have different places. -/
theorem eq_of_locate_verdictLog [Host] (hd : j.directory ≠ "") (htoday : '/' ∉ j.today.toList)
    {a b : Bool} {l : Location} (ha : t.locate (j.verdictLog a) = .ok l)
    (hb : t.locate (j.verdictLog b) = .ok l) : a = b := by
  obtain ⟨above, rfl⟩ := exists_above_of_locate_verdictLog hd htoday ha
  obtain ⟨above', he⟩ := exists_above_of_locate_verdictLog hd htoday hb
  have hname := List.singleton_inj.mp (List.append_inj' he rfl).2
  have hinj : ∀ a b, verdictPrefix a = verdictPrefix b → a = b := by decide
  exact hinj a b (String.append_left_inj _ |>.mp (String.append_left_inj _ |>.mp hname))

/-- The main log of a journal is not in the place of a log of a verdict. -/
def Apart [Host] (j : Journal) (t : FileTree) : Prop :=
  ∀ accepted l, t.locate j.mainLog = .ok l → t.locate (j.verdictLog accepted) ≠ .ok l

/-- A main log whose name is not that of a verdict's log is apart. -/
theorem apart_of_ne [Host] (hd : j.directory ≠ "") (htoday : '/' ∉ j.today.toList)
    (hplain : '/' ∉ j.filePrefix.toList)
    (hne : ∀ accepted, j.filePrefix ++ (if j.dated then j.today else "") ≠
      verdictPrefix accepted ++ j.today) (t : FileTree) : j.Apart t := by
  intro accepted l hmain hverdict
  have hday : '/' ∉ (if j.dated then j.today else "").toList := by
    split
    · exact htoday
    · decide
  obtain ⟨above, rfl⟩ := exists_above_of_locate_log hd hplain hday hmain
  obtain ⟨above', he⟩ := exists_above_of_locate_verdictLog hd htoday hverdict
  have hname := List.singleton_inj.mp (List.append_inj' he rfl).2
  exact hne accepted (String.append_left_inj _ |>.mp hname)

end Journal

end TapeMachine
