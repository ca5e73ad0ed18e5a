import TapeMachine.Proofs.Lines
import TapeMachine.Proofs.LogNames
import TapeMachine.Settings

/-!
# The main log and the logs of the verdicts

A result is written to the main log, and to the log of its verdict. What is written in a place is the
sum of what goes to each path that leads there, so a log holds the lines that are meant for it as long
as no other log has the same place. The names of the logs of the verdicts differ; that of the main log
comes from a prefix which anyone may choose, and nothing keeps it from being the name of one of them.

## Main statements

* `FileTree.Wrote.trans` — writing goes on where writing has ended
* `Journal.Logs.wrote` — what results that were logged leave in every place
* `Journal.holds_iff_apart` — the logs hold what is meant for them if the main log is apart
* `Journal.accepted_twice` — a prefix under which a result stands twice in one log
-/

namespace TapeMachine

section

variable [Host]

namespace FileTree

variable {t t' : FileTree}

/-! ## Writing entries -/

/-- The file at the end of a path has these entries and nothing else; there is none if there are no
entries. -/
def Holds (t : FileTree) (path : String) (entries : List Json) : Prop :=
  t.fileOf? path = if entries = [] then none else some (Journal.logText entries).toUTF8

instance (t : FileTree) (path : String) (entries : List Json) : Decidable (t.Holds path entries) :=
  inferInstanceAs (Decidable (_ = _))

/-- At each location entries were written at the end, and all paths lead where they led. -/
structure Wrote (t t' : FileTree) (lines : Location → List Json) : Prop where
  located : ∀ {path l}, t'.locate path = .ok l ↔ t.locate path = .ok l
  file : ∀ l, t'.fileAt? l = if lines l = [] then t.fileAt? l else
    some ((t.fileAt? l).getD ByteArray.empty ++ (Journal.logText (lines l)).toUTF8)

namespace Wrote

theorem refl (t : FileTree) : Wrote t t fun _ => [] := ⟨Iff.rfl, fun _ => rfl⟩

theorem congr {lines lines' : Location → List Json} (h : Wrote t t' lines)
    (he : ∀ l, lines l = lines' l) : Wrote t t' lines' := funext he ▸ h

/-- Writing goes on where writing has ended. -/
theorem trans {t'' : FileTree} {lines lines' : Location → List Json} (h : Wrote t t' lines)
    (h' : Wrote t' t'' lines') : Wrote t t'' fun l => lines l ++ lines' l := by
  refine ⟨h'.located.trans h.located, ?_⟩
  intro l
  rw [h'.file l, h.file l]
  by_cases hl : lines l = []
  · rw [hl, List.nil_append, if_pos rfl]
  · rw [if_neg hl, if_neg (show lines l ++ lines' l ≠ [] by simp [hl])]
    by_cases hl' : lines' l = []
    · rw [if_pos hl', hl', List.append_nil]
    · rw [if_neg hl', Journal.logText_append, Option.getD_some, ByteArray.append_assoc]
      rfl

/-- What a path holds where nothing was before. -/
theorem holds {lines : Location → List Json} (h : Wrote t t' lines) {path : String} {l : Location}
    (hfree : t.Holds path []) (hl : t.locate path = .ok l) : t'.Holds path (lines l) := by
  unfold Holds at hfree ⊢
  rw [fileOf?_of_locate hl, if_pos rfl] at hfree
  rw [fileOf?_of_locate (h.located.mpr hl), h.file l, hfree]
  rfl

/-- What a path holds where nothing was before, also if it leads nowhere. -/
theorem holds_of_lines {lines : Location → List Json} (h : Wrote t t' lines) {path : String}
    {entries : List Json} (hfree : t.Holds path [])
    (hlines : ∀ l, t.locate path = .ok l → lines l = entries)
    (hnowhere : (∀ l, t.locate path ≠ .ok l) → entries = []) : t'.Holds path entries := by
  cases hl : t.locate path with
  | ok l =>
    rw [← hlines l hl]
    exact h.holds hfree hl
  | error e =>
    have hnone : ∀ l, t'.locate path ≠ .ok l := by simp [h.located, hl]
    rw [hnowhere (by simp [hl])]
    refine fileOf?_of_nodeAt?_eq_none ?_
    cases hp : t'.locate path with
    | ok l => exact absurd hp (hnone l)
    | error e => simp only [nodeAt?, hp]

end Wrote

/-- Entries that were written to a path are at the end of the file where it leads. -/
theorem wrote_of_appendTo {path : String} {entry : Json}
    (h : Journal.appendTo t path [entry] = .ok t') :
    Wrote t t' fun l => if t.locate path = .ok l then [entry] else [] := by
  obtain ⟨l, hl, hfree, -, rfl⟩ := modify_eq_ok h
  refine ⟨locate_put_file hfree _, ?_⟩
  intro l'
  rw [fileAt?_put (isAbove_eq_false_of_node? rfl hfree), bytesAt_eq_fileAt?, hl]
  by_cases he : l = l'
  · subst he
    simp
  · simp [he]

theorem exists_locate_of_appendTo {path : String} {entries : List Json}
    (h : Journal.appendTo t path entries = .ok t') : ∃ l, t.locate path = .ok l := by
  obtain ⟨l, hl, -⟩ := modify_eq_ok h
  exact ⟨l, hl⟩

end FileTree

namespace Journal

open FileTree

variable {t t' : FileTree} {j : Journal}

/-! ## Logging results -/

/-- A run that returned, with what is logged about it. -/
structure Finished where
  program : Option String
  input : String
  result : Result
  now : Moment

def Finished.entry (r : Finished) : Json := resultEntry r.program r.input r.result r.now

/-- Runs are logged one after the other, and every time an entry is returned. -/
inductive Logs (j : Journal) : FileTree → List Finished → List Json → FileTree → Prop where
  | nil (t : FileTree) : Logs j t [] [] t
  | cons {t t₁ t' : FileTree} {r : Finished} {runs : List Finished} {entry : Json}
      {entries : List Json} (hr : j.logResult t r.program r.input r.result r.now = (.ok entry, t₁))
      (hrest : Logs j t₁ runs entries t') : Logs j t (r :: runs) (entry :: entries) t'

/-- What a run puts at a location. -/
def linesAt (j : Journal) (t : FileTree) (l : Location) (r : Finished) : List Json :=
  (if t.locate j.mainLog = .ok l then [r.entry] else []) ++
    if t.locate (j.verdictLog r.result.accepted) = .ok l then [r.entry] else []

theorem linesAt_of_wrote {lines : Location → List Json} (h : Wrote t t' lines) (l : Location) :
    j.linesAt t' l = j.linesAt t l := by
  funext r
  simp only [linesAt, h.located]

/-- A result that was logged stands in the places of both its logs. -/
theorem logResult_eq_ok {r : Finished} {entry : Json}
    (h : j.logResult t r.program r.input r.result r.now = (.ok entry, t')) :
    entry = r.entry ∧ (∃ l, t.locate j.mainLog = .ok l) ∧
      (∃ l, t.locate (j.verdictLog r.result.accepted) = .ok l) ∧
      Wrote t t' fun l => j.linesAt t l r := by
  unfold logResult logVerdict at h
  cases hmain : j.log t [resultEntry r.program r.input r.result r.now] with
  | error e => simp [hmain] at h
  | ok t₁ =>
    cases hverdict : appendTo t₁ (j.verdictLog r.result.accepted)
        [resultEntry r.program r.input r.result r.now] with
    | error e => simp [hmain, hverdict] at h
    | ok t₂ =>
      simp only [hmain, hverdict, Prod.mk.injEq, Except.ok.injEq] at h
      obtain ⟨rfl, rfl⟩ := h
      have hfirst := wrote_of_appendTo hmain
      obtain ⟨lv, hlv⟩ := exists_locate_of_appendTo hverdict
      refine ⟨rfl, exists_locate_of_appendTo hmain, ⟨lv, hfirst.located.mp hlv⟩, ?_⟩
      refine (hfirst.trans (wrote_of_appendTo hverdict)).congr ?_
      intro l
      simp only [hfirst.located]
      rfl

/-- Results that were logged one after the other: their entries, and in each place what they all put
there. -/
theorem Logs.wrote {runs : List Finished} {entries : List Json} (h : j.Logs t runs entries t') :
    entries = runs.map Finished.entry ∧
      (∀ r ∈ runs, (∃ l, t.locate j.mainLog = .ok l) ∧
        ∃ l, t.locate (j.verdictLog r.result.accepted) = .ok l) ∧
      Wrote t t' fun l => runs.flatMap (j.linesAt t l) := by
  induction h with
  | nil t => exact ⟨rfl, nofun, .refl t⟩
  | cons hr hrest ih =>
    obtain ⟨rfl, hmain, hverdict, hwrote⟩ := logResult_eq_ok hr
    obtain ⟨rfl, hlocated, hwrote'⟩ := ih
    refine ⟨rfl, ?_, ?_⟩
    · rw [List.forall_mem_cons]
      refine ⟨⟨hmain, hverdict⟩, ?_⟩
      simp only [hwrote.located] at hlocated
      exact hlocated
    · refine (hwrote.trans hwrote').congr ?_
      intro l
      rw [List.flatMap_cons, linesAt_of_wrote hwrote]

/-- A path leads to a place for a file, which may be written. -/
def Ready (t : FileTree) (path : String) : Prop :=
  ∃ l, t.locate path = .ok l ∧ t.node? l ≠ some .directory ∧ Host.mayWrite l = true

/-- An entry is written where there is a place for it, and no place for a file is lost. -/
theorem Ready.append {path : String} (h : Ready t path) (entries : List Json) :
    ∃ t', appendTo t path entries = .ok t' ∧ ∀ path', Ready t path' → Ready t' path' := by
  obtain ⟨l, hl, hfree, hw⟩ := h
  refine ⟨_, modify_of_locate hl hfree hw _, ?_⟩
  rintro path' ⟨l', hl', hfree', hw'⟩
  refine ⟨l', (locate_put_file hfree _).mpr hl', ?_, hw'⟩
  rw [node?_put (isAbove_eq_false_of_node? rfl hfree)]
  split
  · simp
  · exact hfree'

theorem logVerdict_of_ok {t₁ t₂ : FileTree} {entry : Json} {accepted : Bool}
    (h : j.log t [entry] = .ok t₁) (h' : appendTo t₁ (j.verdictLog accepted) [entry] = .ok t₂) :
    j.logVerdict t entry accepted = (.ok entry, t₂) := by
  unfold logVerdict
  simp only [h, h']

/-- Where all paths lead to places for files, every result is logged. -/
theorem exists_logs (hmain : Ready t j.mainLog) (hverdict : ∀ accepted, Ready t (j.verdictLog accepted))
    (runs : List Finished) : ∃ t', j.Logs t runs (runs.map Finished.entry) t' := by
  induction runs generalizing t with
  | nil => exact ⟨t, .nil t⟩
  | cons r rest ih =>
    obtain ⟨t₁, hfirst, hready₁⟩ := hmain.append [r.entry]
    obtain ⟨t₂, hsecond, hready₂⟩ := (hready₁ _ (hverdict r.result.accepted)).append [r.entry]
    have hr : j.logResult t r.program r.input r.result r.now = (.ok r.entry, t₂) :=
      logVerdict_of_ok hfirst hsecond
    obtain ⟨t', hrest⟩ := ih (hready₂ _ (hready₁ _ hmain)) fun accepted =>
      hready₂ _ (hready₁ _ (hverdict accepted))
    exact ⟨t', .cons hr hrest⟩

/-! ## What the logs hold -/

/-- The entries of runs with a verdict. -/
def withVerdict (accepted : Bool) (runs : List Finished) : List Json :=
  (runs.filter fun r => r.result.accepted = accepted).map Finished.entry

/-- A journal that was started has a directory with a name, and the day of its start. -/
theorem of_start {t₀ : FileTree} {directory filePrefix : String} {dated : Bool} {now : Moment}
    (h : start t₀ directory filePrefix dated now = (.ok j, t)) :
    directory ≠ "" ∧ j = ⟨directory, filePrefix, dated, now.date⟩ := by
  constructor
  · rintro rfl
    cases h
  · unfold start at h
    cases hmade : t₀.makeDirectories directory with
    | mk made t₁ =>
      cases made with
      | error e => simp [hmade] at h
      | ok u =>
        simp only [hmade, Prod.mk.injEq, Except.ok.injEq] at h
        exact h.1.symm

/-- In the place of a main log that is apart there are all entries. -/
theorem flatMap_linesAt_main (hapart : j.Apart t) {l : Location} (hl : t.locate j.mainLog = .ok l)
    (runs : List Finished) : runs.flatMap (j.linesAt t l) = runs.map Finished.entry := by
  induction runs with
  | nil => rfl
  | cons r rest ih =>
    rw [List.flatMap_cons, ih, linesAt, if_pos hl, if_neg (hapart _ l hl)]
    rfl

/-- In the place of a verdict's log, if the main log is apart, there are the entries with that
verdict. -/
theorem flatMap_linesAt_verdict (hd : j.directory ≠ "") (htoday : '/' ∉ j.today.toList)
    (hapart : j.Apart t) {accepted : Bool} {l : Location}
    (hl : t.locate (j.verdictLog accepted) = .ok l) (runs : List Finished) :
    runs.flatMap (j.linesAt t l) = withVerdict accepted runs := by
  have hmain : t.locate j.mainLog ≠ .ok l := fun h => hapart accepted l h hl
  induction runs with
  | nil => rfl
  | cons r rest ih =>
    rw [List.flatMap_cons, ih, linesAt, if_neg hmain, withVerdict, withVerdict, List.filter_cons]
    by_cases hr : r.result.accepted = accepted
    · rw [hr, if_pos hl, if_pos (decide_eq_true rfl)]
      rfl
    · rw [if_neg fun h => hr (eq_of_locate_verdictLog hd htoday h hl), if_neg (by simpa using hr)]
      rfl

/-- Where the main log is in the place of a verdict's log, an entry with that verdict stands twice. -/
theorem linesAt_shared {accepted : Bool} {l : Location} (hd : j.directory ≠ "")
    (htoday : '/' ∉ j.today.toList) (hmain : t.locate j.mainLog = .ok l)
    (hl : t.locate (j.verdictLog accepted) = .ok l) (r : Finished) :
    j.linesAt t l r = r.entry :: if r.result.accepted = accepted then [r.entry] else [] := by
  rw [linesAt, if_pos hmain]
  by_cases hr : r.result.accepted = accepted
  · rw [if_pos hr, hr, if_pos hl]
    rfl
  · rw [if_neg hr, if_neg fun h => hr (eq_of_locate_verdictLog hd htoday h hl)]
    rfl

theorem length_flatMap_linesAt {accepted : Bool} {l : Location} (hd : j.directory ≠ "")
    (htoday : '/' ∉ j.today.toList) (hmain : t.locate j.mainLog = .ok l)
    (hl : t.locate (j.verdictLog accepted) = .ok l) (runs : List Finished) :
    (runs.flatMap (j.linesAt t l)).length = runs.length + (withVerdict accepted runs).length := by
  induction runs with
  | nil => rfl
  | cons r rest ih =>
    rw [List.flatMap_cons, List.length_append, ih, linesAt_shared hd htoday hmain hl, withVerdict,
      withVerdict, List.filter_cons]
    by_cases hr : r.result.accepted = accepted <;> simp [hr] <;> omega

/-- A file that holds entries holds as many lines. -/
theorem length_eq_of_holds {path : String} {a b : List Json} (ha : t.Holds path a)
    (hb : t.Holds path b) : a.length = b.length := by
  unfold Holds at ha hb
  rw [ha] at hb
  by_cases h : a = [] <;> by_cases h' : b = []
  · rw [h, h']
  · simp [h, h'] at hb
  · simp [h, h'] at hb
  · rw [if_neg h, if_neg h', Option.some_inj] at hb
    rw [← count_newline_logText a, ← count_newline_logText b, String.toByteArray_inj.mp hb]

/-- A main log that is apart has the entries of all results. -/
theorem Logs.holds_mainLog {runs : List Finished} {entries : List Json}
    (h : j.Logs t runs entries t') (hapart : j.Apart t) (hfree : t.Holds j.mainLog []) :
    t'.Holds j.mainLog (runs.map Finished.entry) := by
  obtain ⟨-, hlocated, hwrote⟩ := h.wrote
  refine hwrote.holds_of_lines hfree (fun l hl => flatMap_linesAt_main hapart hl runs) fun hnone => ?_
  rw [List.map_eq_nil_iff, List.eq_nil_iff_forall_not_mem]
  intro r hr
  obtain ⟨l, hl⟩ := (hlocated r hr).1
  exact hnone l hl

/-- The log of a verdict has the entries with that verdict, if the main log is apart. -/
theorem Logs.holds_verdictLog {runs : List Finished} {entries : List Json}
    (h : j.Logs t runs entries t') (hd : j.directory ≠ "") (htoday : '/' ∉ j.today.toList)
    (hapart : j.Apart t) {accepted : Bool} (hfree : t.Holds (j.verdictLog accepted) []) :
    t'.Holds (j.verdictLog accepted) (withVerdict accepted runs) := by
  obtain ⟨-, hlocated, hwrote⟩ := h.wrote
  refine hwrote.holds_of_lines hfree
    (fun l hl => flatMap_linesAt_verdict hd htoday hapart hl runs) fun hnone => ?_
  rw [withVerdict, List.map_eq_nil_iff, List.filter_eq_nil_iff]
  intro r hr hv
  obtain ⟨l, hl⟩ := (hlocated r hr).2
  rw [of_decide_eq_true hv] at hl
  exact hnone l hl

/-- One file does not hold the lines of both logs, unless there are none. -/
theorem Logs.eq_nil_of_shared {runs : List Finished} {entries : List Json}
    (h : j.Logs t runs entries t') (hd : j.directory ≠ "") (htoday : '/' ∉ j.today.toList)
    {accepted : Bool} {l : Location} (hl : t.locate j.mainLog = .ok l)
    (hlv : t.locate (j.verdictLog accepted) = .ok l)
    (hmain : t.Holds j.mainLog [] ∧ t'.Holds j.mainLog (runs.map Finished.entry))
    (hverdict : t.Holds (j.verdictLog accepted) [] ∧
      t'.Holds (j.verdictLog accepted) (withVerdict accepted runs)) : runs = [] := by
  obtain ⟨-, -, hwrote⟩ := h.wrote
  have hlength := length_flatMap_linesAt hd htoday hl hlv runs
  have hfirst := length_eq_of_holds hmain.2 (hwrote.holds hmain.1 hl)
  have hsecond := length_eq_of_holds hverdict.2 (hwrote.holds hverdict.1 hlv)
  rw [List.length_map] at hfirst
  exact List.length_eq_zero_iff.mp (by omega)

/-- A journal that was started with nothing in its logs is given results. Whatever their programs and
inputs are, each entry is written in printable characters, so on one line. The main log has the entries
of all results in order, and the log of each verdict those with that verdict, if and only if the main
log is not in the place of one of the others, or there were no results. -/
theorem holds_iff_apart {t₀ : FileTree} {directory filePrefix : String} {dated : Bool} {now : Moment}
    (hstart : start t₀ directory filePrefix dated now = (.ok j, t))
    (hmain : t.Holds j.mainLog []) (hverdict : ∀ accepted, t.Holds (j.verdictLog accepted) [])
    {runs : List Finished} {entries : List Json}
    (hruns : j.Logs t runs entries t') :
    entries = runs.map Finished.entry ∧
      (∀ entry ∈ entries, AllPrintable entry.write.toList) ∧
      ((t'.Holds j.mainLog entries ∧
          ∀ accepted, t'.Holds (j.verdictLog accepted) (withVerdict accepted runs)) ↔
        runs = [] ∨ j.Apart t) := by
  obtain ⟨hd, hj⟩ := of_start hstart
  replace hd : j.directory ≠ "" := by rw [hj]; exact hd
  have htoday : '/' ∉ j.today.toList := by rw [hj]; exact slash_not_mem_date now
  have hentries := hruns.wrote.1
  subst hentries
  refine ⟨rfl, fun entry _ => entry.printable_write, ?_, ?_⟩
  · rintro ⟨hmain', hverdict'⟩
    refine or_iff_not_imp_left.mpr fun hne accepted l hl hlv => hne ?_
    exact hruns.eq_nil_of_shared hd htoday hl hlv ⟨hmain, hmain'⟩ ⟨hverdict accepted, hverdict' accepted⟩
  · rintro (rfl | hapart)
    · cases hruns
      exact ⟨hmain, hverdict⟩
    · exact ⟨hruns.holds_mainLog hapart hmain,
        fun accepted => hruns.holds_verdictLog hd htoday hapart (hverdict accepted)⟩

end Journal

end

/-! ## Two prefixes -/

section

attribute [local instance] Host.usual

namespace Journal

open FileTree

def sampleNow : Moment := ⟨2024, 1, 2, 3, 4, 5, 678901⟩

/-- A journal in a directory, under a prefix. -/
def sample (filePrefix : String) : Journal := ⟨"n", filePrefix, true, sampleNow.date⟩

/-- The files after a journal was started where nothing was. -/
def sampleTree : FileTree := (FileTree.empty.makeDirectories "n").2

theorem start_sample (filePrefix : String) :
    start FileTree.empty "n" filePrefix true sampleNow = (.ok (sample filePrefix), sampleTree) := by
  have hmade : (FileTree.empty.makeDirectories "n").1 = .ok () := by decide +kernel
  have hpair : FileTree.empty.makeDirectories "n" = (.ok (), sampleTree) := Prod.ext hmade rfl
  simp only [start, hpair, sample]

/-- Nothing is where a path leads, and a file can be there. -/
theorem ready_and_free {path : String} {l : Location}
    (h : sampleTree.locate path = .ok l ∧ sampleTree.node? l = none) :
    Ready sampleTree path ∧ sampleTree.Holds path [] := by
  obtain ⟨hl, hn⟩ := h
  refine ⟨⟨l, hl, by simp [hn], rfl⟩, fileOf?_of_nodeAt?_eq_none ?_⟩
  rw [nodeAt?_of_locate hl, hn]

/-- The logs of verdicts have the same places under every prefix. -/
theorem ready_and_free_verdictLog (filePrefix : String) (accepted : Bool) :
    Ready sampleTree ((sample filePrefix).verdictLog accepted) ∧
      sampleTree.Holds ((sample filePrefix).verdictLog accepted) [] := by
  rw [verdictLog_eq]
  show Ready sampleTree (Path.join "n" (verdictPrefix accepted ++ sampleNow.date ++ ".jsonl")) ∧
    sampleTree.Holds (Path.join "n" (verdictPrefix accepted ++ sampleNow.date ++ ".jsonl")) []
  have hplace : ∀ a, sampleTree.locate (Path.join "n" (verdictPrefix a ++ sampleNow.date ++ ".jsonl")) =
      .ok ["n", verdictPrefix a ++ "2024-01-02.jsonl"] ∧
        sampleTree.node? ["n", verdictPrefix a ++ "2024-01-02.jsonl"] = none := by decide +kernel
  exact ready_and_free (hplace accepted)

/-- A run that accepts, and one that rejects. -/
def sampleRuns : List Finished :=
  [⟨some "p.tm", "aa", ⟨"_aa_", 3, true, 4⟩, sampleNow⟩,
    ⟨some "p.tm", "a", ⟨"_a_", 2, false, 3⟩, sampleNow⟩]

/-- Under the default prefix both runs are in the main log, and each is in the log of its verdict. -/
theorem holds_iff_apart_default : ∃ entries t',
    (sample Settings.default.logPrefix).Logs sampleTree sampleRuns entries t' ∧
      t'.Holds (sample Settings.default.logPrefix).mainLog entries ∧
      t'.Holds (sample Settings.default.logPrefix).acceptedLog (entries.take 1) ∧
      t'.Holds (sample Settings.default.logPrefix).rejectedLog (entries.drop 1) := by
  have hplace : sampleTree.locate (sample Settings.default.logPrefix).mainLog =
      .ok ["n", "tmvm_2024-01-02.jsonl"] := by decide +kernel
  have hmain := ready_and_free ⟨hplace, by decide +kernel⟩
  have hverdict := ready_and_free_verdictLog Settings.default.logPrefix
  have hapart : (sample Settings.default.logPrefix).Apart sampleTree :=
    apart_of_ne (by decide) (by decide +kernel) (by decide) (by decide +kernel) _
  obtain ⟨t', hlogs⟩ := exists_logs hmain.1 (fun accepted => (hverdict accepted).1) sampleRuns
  obtain ⟨-, -, hiff⟩ := holds_iff_apart (start_sample Settings.default.logPrefix) hmain.2
    (fun accepted => (hverdict accepted).2) hlogs
  obtain ⟨hfirst, hsecond⟩ := hiff.mpr (Or.inr hapart)
  exact ⟨_, t', hlogs, hfirst, hsecond true, hsecond false⟩

/-- A journal whose prefix is the first part of the name of a verdict's log, dated as all are by
default: a run that accepts stands twice in one log. -/
theorem accepted_twice : ∃ j t t' entry,
    start FileTree.empty "n" "accepted_" true sampleNow = (.ok j, t) ∧ t.Holds j.mainLog [] ∧
      (∀ accepted, t.Holds (j.verdictLog accepted) []) ∧
      j.Logs t (sampleRuns.take 1) [entry] t' ∧ t'.Holds j.mainLog [entry, entry] ∧
      ¬ t'.Holds j.mainLog [entry] ∧ ¬ t'.Holds j.acceptedLog [entry] := by
  have hl : sampleTree.locate (sample "accepted_").mainLog =
      .ok ["n", "accepted_2024-01-02.jsonl"] := by decide +kernel
  have hmain := ready_and_free ⟨hl, by decide +kernel⟩
  have hverdict := ready_and_free_verdictLog "accepted_"
  obtain ⟨t', hlogs⟩ := exists_logs hmain.1 (fun accepted => (hverdict accepted).1)
    (sampleRuns.take 1)
  obtain ⟨-, -, hwrote⟩ := hlogs.wrote
  have hlines : ∀ r ∈ sampleRuns.take 1, (sample "accepted_").linesAt sampleTree
      ["n", "accepted_2024-01-02.jsonl"] r = [r.entry, r.entry] := by
    intro r hr
    obtain rfl := List.mem_singleton.mp hr
    have hlv : sampleTree.locate ((sample "accepted_").verdictLog true) =
        .ok ["n", "accepted_2024-01-02.jsonl"] := hl
    rw [linesAt_shared (by decide) (by decide +kernel) hl hlv]
    rfl
  have htwice := hwrote.holds hmain.2 hl
  rw [List.flatMap_congr hlines] at htwice
  have hnot : ¬ t'.Holds (sample "accepted_").mainLog ((sampleRuns.take 1).map Finished.entry) :=
    fun h => absurd (length_eq_of_holds htwice h) (by decide)
  exact ⟨sample "accepted_", sampleTree, t', _, start_sample "accepted_", hmain.2,
    fun accepted => (hverdict accepted).2, hlogs, htwice, hnot, hnot⟩

/-- Under a prefix that is a path from the root the main log is the log of the accepted inputs too. -/
example : sampleTree.locate (sample "/n/accepted_").mainLog =
    sampleTree.locate (sample "accepted_").acceptedLog := by decide +kernel

end Journal

end

end TapeMachine
