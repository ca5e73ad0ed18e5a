import TapeMachine.Batch.Campaign
import TapeMachine.Proofs.Folders

/-!
# Inputs are read back

A file of inputs has one tape on each line. It is read in three passes over its characters: each line
end becomes an LF, the text is cut behind each LF, and the line ends are taken off again. Tapes without
line ends come out as they were written, whatever else is in them, and empty tapes are no exception: only
behind the last line end there is no tape unless something is written there.

## Main statements

* `Text.unifyNewlines_written` — with any line ends, lines are read as if they ended in LF
* `Text.endedLines_eq` — the lines of a text are cut behind each LF and lose their line ends
* `Text.keptLines_written` — lines are cut where they were put together
* `FileTree.read_write` — a file holds what was written
* `Campaign.loadInputs_written` — tapes that were written are loaded
-/

namespace TapeMachine

namespace Text

/-! ## Lines that are written -/

/-- The ways in which a file may end its lines. -/
inductive LineEnd where
  | lf
  | crlf
  | cr
  deriving DecidableEq, Repr

def LineEnd.chars : LineEnd → List Char
  | lf => ['\n']
  | crlf => ['\r', '\n']
  | cr => ['\r']

/-- A text with no line end in it. -/
def Unbroken (cs : List Char) : Prop := '\n' ∉ cs ∧ '\r' ∉ cs

instance (cs : List Char) : Decidable (Unbroken cs) := inferInstanceAs (Decidable (_ ∧ _))

/-- Lines, each followed by a line end. -/
def written (e : LineEnd) (lines : List (List Char)) : List Char := lines.flatMap (· ++ e.chars)

theorem written_cons_append (e : LineEnd) (l : List Char) (lines : List (List Char)) (last : List Char) :
    written e (l :: lines) ++ last = l ++ (e.chars ++ (written e lines ++ last)) := by
  unfold written
  rw [List.flatMap_cons, List.append_assoc, List.append_assoc]

/-! ## Line ends become LF -/

theorem unifyNewlines_append {cs : List Char} (h : '\r' ∉ cs) (rest : List Char) :
    unifyNewlines (cs ++ rest) = cs ++ unifyNewlines rest := by
  induction cs with
  | nil => rfl
  | cons c cs ih =>
    rw [List.mem_cons, not_or] at h
    have hstep : ∀ tail, unifyNewlines (c :: tail) = c :: unifyNewlines tail := by
      intro tail
      rw [unifyNewlines]
      · exact fun tail' hc _ => h.1 hc.symm
      · exact fun hc => h.1 hc.symm
    rw [List.cons_append, hstep, ih h.2, List.cons_append]

/-- A line end becomes an LF; a CR alone must not have an LF behind it. -/
theorem unifyNewlines_lineEnd {e : LineEnd} {rest : List Char} (h : e = .cr → rest.head? ≠ some '\n') :
    unifyNewlines (e.chars ++ rest) = '\n' :: unifyNewlines rest := by
  cases e with
  | lf =>
    have hlf : '\r' ∉ ['\n'] := by decide
    exact unifyNewlines_append hlf rest
  | crlf => rfl
  | cr =>
    cases rest with
    | nil => rfl
    | cons c rest =>
      have hc : c ≠ '\n' := fun hc => h rfl (by rw [List.head?_cons, hc])
      show unifyNewlines ('\r' :: c :: rest) = _
      rw [unifyNewlines]
      intro tail ht
      exact hc (List.cons.inj ht).1

/-- Behind a CR that ends a line no LF follows. -/
theorem head?_written {lines : List (List Char)} {last : List Char} (h : ∀ l ∈ lines, Unbroken l)
    (hlast : Unbroken last) : (written .cr lines ++ last).head? ≠ some '\n' := by
  have hfirst : ∀ {cs : List Char}, Unbroken cs → cs.head? ≠ some '\n' :=
    fun hcs hh => hcs.1 (List.mem_of_head? hh)
  cases lines with
  | nil => exact hfirst hlast
  | cons l lines =>
    rw [written_cons_append, List.head?_append]
    cases hl : l.head? with
    | none => simp [LineEnd.chars]
    | some c => exact fun hc => hfirst (h l List.mem_cons_self) (hl.trans hc)

/-- Whatever line ends were written, LFs are read. -/
theorem unifyNewlines_written (e : LineEnd) {lines : List (List Char)} {last : List Char}
    (h : ∀ l ∈ lines, Unbroken l) (hlast : Unbroken last) :
    unifyNewlines (written e lines ++ last) = written .lf lines ++ last := by
  induction lines with
  | nil => exact unifyNewlines_of_no_cr hlast.2
  | cons l lines ih =>
    have hrest : ∀ l ∈ lines, Unbroken l := fun x hx => h x (List.mem_cons_of_mem _ hx)
    have hcr : e = .cr → (written e lines ++ last).head? ≠ some '\n' := by
      rintro rfl
      exact head?_written hrest hlast
    rw [written_cons_append, unifyNewlines_append (h l List.mem_cons_self).2, unifyNewlines_lineEnd hcr,
      ih hrest, written_cons_append]
    rfl

/-! ## Cutting behind each LF -/

/-- The lines of a text, each with the LF that ends it. -/
def keptLines : List Char → List (List Char)
  | [] => []
  | c :: rest =>
    if c = '\n' then [c] :: keptLines rest
    else match keptLines rest with
      | [] => [[c]]
      | line :: lines => (c :: line) :: lines

/-- What stands behind the last line end is a line unless it is empty. -/
def unended (last : List Char) : List (List Char) := if last = [] then [] else [last]

theorem keptLines_append_newline {l : List Char} (h : '\n' ∉ l) (rest : List Char) :
    keptLines (l ++ '\n' :: rest) = (l ++ ['\n']) :: keptLines rest := by
  induction l with
  | nil => rw [List.nil_append, keptLines, if_pos rfl, List.nil_append]
  | cons c l ih =>
    rw [List.mem_cons, not_or] at h
    rw [List.cons_append, keptLines, if_neg (Ne.symm h.1), ih h.2]
    rfl

theorem keptLines_of_no_newline {l : List Char} (h : '\n' ∉ l) : keptLines l = unended l := by
  induction l with
  | nil => rfl
  | cons c l ih =>
    rw [List.mem_cons, not_or] at h
    rw [keptLines, if_neg (Ne.symm h.1), ih h.2]
    cases l <;> rfl

/-- Lines are cut where they were put together. -/
theorem keptLines_written {lines : List (List Char)} {last : List Char} (h : ∀ l ∈ lines, Unbroken l)
    (hlast : Unbroken last) :
    keptLines (written .lf lines ++ last) = lines.map (· ++ ['\n']) ++ unended last := by
  induction lines with
  | nil => exact keptLines_of_no_newline hlast.1
  | cons l lines ih =>
    rw [written_cons_append]
    show keptLines (l ++ '\n' :: (written .lf lines ++ last)) = _
    rw [keptLines_append_newline (h l List.mem_cons_self).1,
      ih fun x hx => h x (List.mem_cons_of_mem _ hx), List.map_cons, List.cons_append]

/-! ## Taking line ends off -/

def isLineEnd (c : Char) : Bool := c == '\r' || c == '\n'

/-- A line without the line ends at its end. -/
def bare (line : List Char) : List Char := dropEnd isLineEnd line

theorem bare_of_unbroken {l : List Char} (h : Unbroken l) : bare l = l := by
  refine dropEnd_eq_self_iff.mpr fun c hc => ?_
  have hmem : c ∈ l := List.mem_of_getLast? hc
  simp only [isLineEnd, Bool.or_eq_false_iff, beq_eq_false_iff_ne]
  exact ⟨fun he => h.2 (he ▸ hmem), fun he => h.1 (he ▸ hmem)⟩

theorem bare_append_newline {l : List Char} (h : Unbroken l) : bare (l ++ ['\n']) = l := by
  have hdrop : bare (l ++ ['\n']) = bare l := by
    unfold bare dropEnd
    rw [List.reverse_append, List.reverse_singleton, List.singleton_append,
      List.dropWhile_cons_of_pos (by decide)]
  rw [hdrop, bare_of_unbroken h]

theorem map_bare {lines : List (List Char)} {last : List Char} (h : ∀ l ∈ lines, Unbroken l)
    (hlast : Unbroken last) :
    (lines.map (· ++ ['\n']) ++ unended last).map bare = lines ++ unended last := by
  have hlines : (lines.map (· ++ ['\n'])).map bare = lines := by
    rw [List.map_map]
    exact (List.map_congr_left fun l hl => bare_append_newline (h l hl)).trans (List.map_id lines)
  have hend : (unended last).map bare = unended last := by
    unfold unended
    split
    · rfl
    · rw [List.map_singleton, bare_of_unbroken hlast]
  rw [List.map_append, hlines, hend]

/-! ## The three passes -/

/-- Nothing is lost by cutting. -/
theorem flatten_keptLines (cs : List Char) : (keptLines cs).flatten = cs := by
  induction cs with
  | nil => rfl
  | cons c cs ih =>
    rw [keptLines]
    split
    · rw [List.flatten_cons, ih, List.singleton_append]
    · cases hk : keptLines cs with
      | nil =>
        rw [hk, List.flatten_nil] at ih
        rw [← ih]
        rfl
      | cons line lines =>
        rw [hk, List.flatten_cons] at ih
        simp only
        rw [List.flatten_cons, List.cons_append, ih]

/-- The parts between LFs are the lines without their LFs, and what stands behind the last LF. -/
theorem exists_keptLines (cs : List Char) : ∃ lines last, cs.splitOn '\n' = lines ++ [last] ∧
    keptLines cs = lines.map (· ++ ['\n']) ++ unended last := by
  induction cs with
  | nil => exact ⟨[], [], List.splitOn_nil '\n', rfl⟩
  | cons c cs ih =>
    obtain ⟨lines, last, hparts, hkept⟩ := ih
    rw [List.splitOn_cons_eq_if_modifyHead, hparts, keptLines, hkept]
    by_cases hc : c = '\n'
    · subst hc
      exact ⟨[] :: lines, last, by simp, by simp⟩
    · rw [if_neg hc, if_neg (by simpa using hc)]
      cases lines with
      | nil =>
        refine ⟨[], c :: last, rfl, ?_⟩
        cases last <;> rfl
      | cons l lines => exact ⟨(c :: l) :: lines, last, rfl, rfl⟩

/-- The lines of a text without CR are cut behind each LF and lose their line ends. -/
theorem endedLines_eq {s : String} (h : '\r' ∉ s.toList) :
    endedLines s = (keptLines s.toList).map fun line => String.ofList (bare line) := by
  obtain ⟨ls, last, hparts, hkept⟩ := exists_keptLines s.toList
  have hunbroken : ∀ l ∈ ls ++ [last], Unbroken l := by
    intro l hl
    refine ⟨not_mem_of_mem_splitOn (hparts ▸ hl), fun hr => h ?_⟩
    rw [← flatten_keptLines s.toList, hkept, List.mem_flatten]
    rcases List.mem_append.mp hl with hl | hl
    · exact ⟨l ++ ['\n'], List.mem_append_left _ (List.mem_map_of_mem hl), List.mem_append_left _ hr⟩
    · obtain rfl := List.mem_singleton.mp hl
      refine ⟨l, List.mem_append_right _ ?_, hr⟩
      rw [unended, if_neg (List.ne_nil_of_mem hr)]
      exact List.mem_singleton_self l
  have hbare := map_bare (fun l hl => hunbroken l (List.mem_append_left _ hl))
    (hunbroken last (List.mem_append_right _ (List.mem_singleton_self last)))
  have hall : lines s = ls.map String.ofList ++ [String.ofList last] := by
    rw [lines, hparts, List.map_append, List.map_singleton]
  have hmap : (keptLines s.toList).map (fun line => String.ofList (bare line)) =
      (ls ++ unended last).map String.ofList := by
    rw [← hbare, hkept, List.map_map]
    rfl
  rw [hmap, endedLines, hall, List.getLast?_concat]
  by_cases hlast : last = []
  · have hend : unended last = [] := if_pos hlast
    rw [hend, List.append_nil, hlast]
    exact (if_pos rfl).trans List.dropLast_concat
  · have hne : ¬(some (String.ofList last) = some "") := by simpa using hlast
    rw [unended, if_neg hlast, List.map_append, List.map_singleton]
    exact if_neg hne

end Text

namespace FileTree

variable [Host] {t t' : FileTree}

/-- A file holds what was written to it. -/
theorem nodeAt?_write {path text : String} (h : t.write path text = .ok t') :
    t'.nodeAt? path = some (.file text.toUTF8) := by
  obtain ⟨l, hl, hfree, -, rfl⟩ := modify_eq_ok h
  rw [nodeAt?_of_locate ((locate_put_file hfree _).mpr hl),
    node?_put (isAbove_eq_false_of_node? rfl hfree), if_pos rfl]

/-- What was written to a file is its text, if it may be read. -/
theorem readText_write {path text : String} (h : t.write path text = .ok t')
    (hr : t'.readable path = true) :
    t'.readText path = .ok (String.ofList (Text.unifyNewlines text.toList)) := by
  rw [readText_of_file (nodeAt?_write h), if_pos hr, decode_utf8]

end FileTree

namespace Campaign

open Text

variable {job : Job} {d : Desk} {t : FileTree}

/-- The text of a file of inputs: each tape with a line end behind it, and what stands behind the last
line end. -/
def inputsText (e : LineEnd) (tapes : List String) (last : String) : String :=
  String.ofList (written e (tapes.map String.toList)) ++ last

/-- Tapes that were written come out of the three passes. -/
theorem inputsOf_unify {e : LineEnd} {tapes : List String} {last : String}
    (h : ∀ tape ∈ tapes, Unbroken tape.toList) (hlast : Unbroken last.toList) :
    inputsOf (String.ofList (unifyNewlines (inputsText e tapes last).toList)) =
      tapes ++ if last = "" then [] else [last] := by
  have hlines : ∀ l ∈ tapes.map String.toList, Unbroken l := by
    intro l hl
    obtain ⟨tape, htape, rfl⟩ := List.mem_map.mp hl
    exact h tape htape
  have hend : (unended last.toList).map String.ofList = if last = "" then [] else [last] := by
    unfold unended
    by_cases he : last = ""
    · rw [if_pos he, if_pos (String.toList_eq_nil_iff.mpr he)]
      rfl
    · rw [if_neg he, if_neg (ne_nil_of_ne_empty he), List.map_singleton, String.ofList_toList]
  have htext : (inputsText e tapes last).toList = written e (tapes.map String.toList) ++ last.toList := by
    rw [inputsText, String.toList_append, String.toList_ofList]
  have hcr : '\r' ∉ (String.ofList (unifyNewlines (inputsText e tapes last).toList)).toList := by
    rw [String.toList_ofList]
    exact cr_not_mem_unifyNewlines _
  calc inputsOf (String.ofList (unifyNewlines (inputsText e tapes last).toList))
      = ((keptLines (written .lf (tapes.map String.toList) ++ last.toList)).map bare).map
          String.ofList := by
        rw [inputsOf, endedLines_eq hcr, String.toList_ofList, htext, unifyNewlines_written e hlines hlast,
          List.map_map]
        rfl
    _ = (tapes.map String.toList ++ unended last.toList).map String.ofList := by
        rw [keptLines_written hlines hlast, map_bare hlines hlast]
    _ = tapes ++ if last = "" then [] else [last] := by
        have hid : String.ofList ∘ String.toList = id := funext fun _ => String.ofList_toList
        rw [List.map_append, List.map_map, hid, List.map_id, hend]

theorem loadInputs_of_readText [Host] {text : String} (h : t.readText job.inputs = .ok text)
    (console : Array Event) : loadInputs job ⟨t, console⟩ = (.ok (inputsOf text), ⟨t, console⟩) := by
  unfold loadInputs
  rw [Task.tree_bind, Task.mapError_bind h]
  rfl

/-- Tapes without line ends are loaded as they were written, each followed by a line end, whichever of
the three is used, to a file that may be read. If the last line end is left out, the last tape is lost if
it is empty, and nothing else is. -/
theorem loadInputs_written [Host] (job : Job) (d : Desk) (e : LineEnd) {tapes : List String}
    (h : ∀ tape ∈ tapes, Unbroken tape.toList) :
    (∀ t, d.tree.write job.inputs (inputsText e tapes "") = .ok t → t.readable job.inputs = true →
      loadInputs job ⟨t, d.console⟩ = (.ok tapes, ⟨t, d.console⟩)) ∧
    ∀ front last, tapes = front ++ [last] →
      inputsText e tapes "" = inputsText e front last ++ String.ofList e.chars ∧
      ∀ t, d.tree.write job.inputs (inputsText e front last) = .ok t →
        t.readable job.inputs = true →
        loadInputs job ⟨t, d.console⟩ = (.ok (if last = "" then front else tapes), ⟨t, d.console⟩) := by
  refine ⟨fun t hwrite hr => ?_, fun front last htapes => ⟨?_, fun t hwrite hr => ?_⟩⟩
  · have hnone : Unbroken "".toList := by decide
    rw [loadInputs_of_readText (FileTree.readText_write hwrite hr), inputsOf_unify h hnone, if_pos rfl,
      List.append_nil]
  · simp [inputsText, htapes, written, String.append_assoc]
  · have hfront : ∀ tape ∈ front, Unbroken tape.toList :=
      fun tape ht => h tape (htapes ▸ List.mem_append_left _ ht)
    have hlast : Unbroken last.toList :=
      h last (htapes ▸ List.mem_append_right _ (List.mem_singleton_self last))
    rw [loadInputs_of_readText (FileTree.readText_write hwrite hr), inputsOf_unify hfront hlast]
    by_cases he : last = ""
    · rw [if_pos he, if_pos he, List.append_nil]
    · rw [if_neg he, if_neg he, htapes]

section

attribute [local instance] Host.usual

/-- Empty tapes at both ends and in between, and a tape of characters that end lines elsewhere; the lines
end in CR. -/
theorem loadInputs_written_separators :
    let job : Job := ⟨"p.tm", [], "in.txt", "results", 256, 1000, 16⟩
    let d : Desk := ⟨FileTree.empty, #[]⟩
    let front := ["", "", " \x0b\x0c\x1c\u0085\u2028 ", ""]
    (∀ tape ∈ front ++ [""], Unbroken tape.toList) ∧
      (∃ t, d.tree.write job.inputs (inputsText .cr (front ++ [""]) "") = .ok t ∧
        loadInputs job ⟨t, d.console⟩ = (.ok (front ++ [""]), ⟨t, d.console⟩)) ∧
      ∃ t, d.tree.write job.inputs (inputsText .cr front "") = .ok t ∧
        loadInputs job ⟨t, d.console⟩ = (.ok front, ⟨t, d.console⟩) := by
  intro job d front
  have hunbroken : ∀ tape ∈ front ++ [""], Unbroken tape.toList := by decide
  have hlocate : d.tree.locate job.inputs = .ok ["in.txt"] := by decide +kernel
  have hwrite : ∀ text, d.tree.write job.inputs text =
      .ok (d.tree.put ["in.txt"] (.file text.toUTF8)) :=
    fun text => FileTree.modify_of_locate hlocate (by decide) rfl _
  obtain ⟨hended, hunended⟩ := loadInputs_written job d .cr hunbroken
  have hreadable : ∀ text : String,
      (d.tree.put ["in.txt"] (.file text.toUTF8)).readable job.inputs = true := fun text =>
    FileTree.readable_of_locate ((FileTree.locate_put_file (by decide) _).mpr hlocate)
  exact ⟨hunbroken, ⟨_, hwrite _, hended _ (hwrite _) (hreadable _)⟩,
    ⟨_, hwrite _, (hunended front "" rfl).2 _ (hwrite _) (hreadable _)⟩⟩

end

end Campaign

end TapeMachine
