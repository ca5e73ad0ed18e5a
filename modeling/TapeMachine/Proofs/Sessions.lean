import TapeMachine.Proofs.Dispatch
import TapeMachine.Proofs.Lines
import TapeMachine.Proofs.LogNames
import TapeMachine.Sample

/-!
# Histories of sessions

A session is given lines one after the other, and others may change the files in between. What the
session remembers then is told by the turns so far: the machine and its program are those of the last
turn that reported a load, or would have if the console had not refused the report; the last result is
that of the last run whose simulation returned; and the main log has a line for each such run.

## Main statements

* `Session.loaded_of_turns` — what is loaded after turns
* `Session.lastResult_of_turns` — which result is the last
* `Session.LogAt.turns` — what is in the main log
* `Session.turns_consistent` — all this of every history of a session
-/

namespace TapeMachine

namespace Session

open FileTree

/-! ## Turns -/

/-- A line that a session is given, with the moment and with what others do to the files before. -/
structure Prompt where
  others : FileTree → FileTree
  now : Moment
  line : String

/-- A line that was done, with the worlds before and after it. -/
structure Turn where
  now : Moment
  line : String
  before : World
  after : World

def turn [Host] (w : World) (p : Prompt) : Turn :=
  let before : World := { w with desk := { w.desk with tree := p.others w.desk.tree } }
  ⟨p.now, p.line, before, (dispatch p.now p.line before).2⟩

/-- The turns of prompts one after the other. -/
def turns [Host] (w : World) : List Prompt → List Turn
  | [] => []
  | p :: rest => turn w p :: turns (turn w p).after rest

/-- The world after turns. -/
def worldAfter (w : World) : List Turn → World
  | [] => w
  | t :: rest => worldAfter t.after rest

namespace Turn

section

variable [Host]

/-- What was said in the turn. -/
def said (t : Turn) : List Event := t.after.desk.console.toList.drop t.before.desk.console.size

/-- Whether the turn loaded a machine and the console refused the report. -/
def unheard (t : Turn) : Bool :=
  (loadOf? t.before.desk.tree t.line).any fun (path, m) => !Host.takes (loadReport path m)

/-- Whether the turn reported that a machine was loaded, or the console refused the report. -/
def loads (t : Turn) : Bool := t.said.any reportsLoad || t.unheard

/-- The input and the result of the turn, if it is a run whose simulation returned. -/
def result? (t : Turn) : Option (String × Result) := returned? t.before.session t.line

/-- The entry of the turn's result in a log. -/
def record? (t : Turn) : Option Json := t.result?.map fun (input, r) =>
  Journal.resultEntry t.before.session.program input r t.now

/-- A session has the machine and the program that the turn loaded: the line names a file and an
alphabet, and the machine is compiled from the text that the file had then. -/
def Loaded (t : Turn) (s : Session) : Prop := ∃ file alphabet source m,
  Shell.select commands t.line = .act .load [file, alphabet] ∧
    t.before.desk.tree.readText (Path.tidy file) = .ok source ∧
    Machine.compile source (Alphabet.itemsOf alphabet) = .ok m ∧
    s.machine = some m ∧ s.program = some (Path.tidy file)

/-- The turn did what its line does. -/
def Done (t : Turn) : Prop := Effect t.now t.line t.before t.after

end

end Turn

section

variable [Host] {w : World} {ps : List Prompt} {t : Turn}

theorem done_turn (w : World) (p : Prompt) : (turn w p).Done := dispatch_effect _ _ _

theorem done_of_mem (h : t ∈ turns w ps) : t.Done := by
  induction ps generalizing w with
  | nil => cases h
  | cons p rest ih =>
    rcases List.mem_cons.mp h with rfl | h
    · exact done_turn w p
    · exact ih h

/-! ## What a turn changes -/

namespace Turn

omit [Host] in
theorem said_eq {said : List Event}
    (h : t.after.desk.console = t.before.desk.console ++ said.toArray) : t.said = said := by
  rw [Turn.said, h, Array.toList_append, List.drop_left' (by simp)]

/-- A load returns no result. -/
theorem result?_of_load {args : List String} (h : Shell.select commands t.line = .act .load args) :
    t.result? = none := by
  unfold result? returned?
  rw [h]

namespace Done

/-- A turn that reports a load, or is not let to, has loaded. -/
theorem loaded (h : t.Done) (hl : t.loads = true) : t.Loaded t.after.session := by
  rcases h with ⟨file, alphabet, source, m, hline, hsource, hm, hafter⟩ |
    ⟨input, r, steps, hr, hload, hafter⟩ | ⟨verbose, running, said, -, hnone, hload, -, hafter⟩
  · exact ⟨file, alphabet, source, m, hline, hsource, hm, by rw [hafter]; rfl, by rw [hafter]; rfl⟩
  · have hsaid : t.said = steps ++ [.plain r.describe] := said_eq (by rw [hafter]; rfl)
    rw [loads, unheard, loadOf?_of_returned? hr, hsaid, List.any_append, hload] at hl
    cases hl
  · have hsaid : t.said = said := said_eq (by rw [hafter]; rfl)
    rw [loads, unheard, hnone, hsaid, hload] at hl
    cases hl

/-- Any other turn leaves the machine and its program as they were. -/
theorem kept (h : t.Done) (hl : t.loads = false) :
    t.after.session.machine = t.before.session.machine ∧
      t.after.session.program = t.before.session.program := by
  rcases h with ⟨file, alphabet, source, m, hline, hsource, hm, hafter⟩ |
    ⟨input, r, steps, -, -, hafter⟩ | ⟨verbose, running, said, -, -, -, -, hafter⟩
  · have hsaid : t.said = heard (loadReport (Path.tidy file) m) := said_eq (by rw [hafter]; rfl)
    rw [loads, unheard, loadOf?_of_compile hline hsource hm, hsaid, any_reportsLoad_heard] at hl
    simp at hl
  · rw [hafter]
    exact ⟨rfl, rfl⟩
  · rw [hafter]
    exact ⟨rfl, rfl⟩

/-- A turn with a result keeps it as the last, any other leaves the last result as it was. -/
theorem lastResult (h : t.Done) : t.after.session.lastResult =
    (t.result?.map Prod.snd).or t.before.session.lastResult := by
  rcases h with ⟨file, alphabet, source, m, hline, -, -, hafter⟩ | ⟨input, r, steps, hr, -, hafter⟩ |
    ⟨verbose, running, said, hr, -, -, -, hafter⟩
  · rw [hafter, result?_of_load hline]
    rfl
  · rw [hafter, result?, hr]
    rfl
  · rw [hafter, result?, hr]
    rfl

theorem journal (h : t.Done) : t.after.session.journal = t.before.session.journal := by
  rcases h with ⟨_, _, _, _, -, -, -, hafter⟩ | ⟨_, _, _, -, -, hafter⟩ |
    ⟨_, _, _, -, -, -, -, hafter⟩ <;>
    rw [hafter] <;> rfl

/-- A turn with a result logs it, any other leaves the files as they were. -/
theorem tree (h : t.Done) : t.after.desk.tree =
    match t.result? with
    | none => t.before.desk.tree
    | some (input, r) => logged t.before.session input r t.now t.before.desk.tree := by
  rcases h with ⟨file, alphabet, source, m, hline, -, -, hafter⟩ | ⟨input, r, steps, hr, -, hafter⟩ |
    ⟨verbose, running, said, hr, -, -, -, hafter⟩
  · rw [hafter, result?_of_load hline]
    rfl
  · rw [hafter, result?, hr]
    rfl
  · rw [hafter, result?, hr]
    rfl

/-- A result is shown last. -/
theorem shown (h : t.Done) {input : String} {r : Result} (hr : t.result? = some (input, r)) :
    t.said.getLast? = some (.plain r.describe) := by
  rcases h with ⟨file, alphabet, source, m, hline, -, -, -⟩ | ⟨input', r', steps, hr', -, hafter⟩ |
    ⟨verbose, running, said, hr', -, -, -, -⟩
  · rw [result?_of_load hline] at hr
    cases hr
  · rw [result?, hr'] at hr
    cases hr
    have hsaid : t.said = steps ++ [.plain r.describe] := said_eq (by rw [hafter]; rfl)
    rw [hsaid, List.getLast?_concat]
  · rw [result?, hr'] at hr
    cases hr

/-- A run without a result shows none. -/
theorem not_shown (h : t.Done) (hr : t.result? = none) (hrun : isRun t.line) (r : Result) :
    t.said.getLast? ≠ some (.plain r.describe) := by
  rcases h with ⟨file, alphabet, source, m, hline, -, -, -⟩ | ⟨input', r', steps, hr', -, -⟩ |
    ⟨verbose, running, said, -, -, -, hquiet, hafter⟩
  · obtain ⟨args, hargs⟩ := hrun
    rw [hline] at hargs
    cases hargs
  · rw [result?, hr'] at hr
    cases hr
  · have hsaid : t.said = said := said_eq (by rw [hafter]; rfl)
    rw [hsaid]
    exact hquiet hrun r.describe

end Done

end Turn

/-! ## Histories -/

/-- The machine and the program are those of the last turn that loaded, or as they were if none
did. -/
theorem loaded_of_turns (w : World) (ps : List Prompt) :
    match ((turns w ps).filter Turn.loads).getLast? with
    | none => (worldAfter w (turns w ps)).session.machine = w.session.machine ∧
        (worldAfter w (turns w ps)).session.program = w.session.program
    | some t => t.Loaded (worldAfter w (turns w ps)).session := by
  induction ps generalizing w with
  | nil => exact ⟨rfl, rfl⟩
  | cons p rest ih =>
    have ih := ih (turn w p).after
    rw [turns, worldAfter]
    cases hl : (turn w p).loads with
    | true =>
      obtain ⟨file, alphabet, source, m, hline, hsource, hm, hmachine, hprogram⟩ :=
        (done_turn w p).loaded hl
      rw [List.filter_cons_of_pos hl, List.getLast?_cons]
      cases hlast : ((turns (turn w p).after rest).filter Turn.loads).getLast? with
      | none =>
        rw [hlast] at ih
        exact ⟨file, alphabet, source, m, hline, hsource, hm, ih.1.trans hmachine,
          ih.2.trans hprogram⟩
      | some t =>
        rw [hlast] at ih
        exact ih
    | false =>
      obtain ⟨hmachine, hprogram⟩ := (done_turn w p).kept hl
      rw [List.filter_cons_of_neg (by simp [hl])]
      cases hlast : ((turns (turn w p).after rest).filter Turn.loads).getLast? with
      | none =>
        rw [hlast] at ih
        exact ⟨ih.1.trans hmachine, ih.2.trans hprogram⟩
      | some t =>
        rw [hlast] at ih
        exact ih

/-- The last result is that of the last turn that has one, or as it was if none has. -/
theorem lastResult_of_turns (w : World) (ps : List Prompt) :
    (worldAfter w (turns w ps)).session.lastResult =
      (((turns w ps).filterMap Turn.result?).getLast?.map Prod.snd).or w.session.lastResult := by
  induction ps generalizing w with
  | nil => simp [turns, worldAfter]
  | cons p rest ih =>
    have hturn := (done_turn w p).lastResult
    rw [turns, worldAfter, ih]
    cases hr : (turn w p).result? with
    | none =>
      rw [List.filterMap_cons_none hr, hturn, hr]
      rfl
    | some e =>
      rw [List.filterMap_cons_some hr, List.getLast?_cons, hturn, hr]
      cases ((turns (turn w p).after rest).filterMap Turn.result?).getLast? <;> rfl

/-- There is a program where there is a machine, in every turn if there was at first. -/
theorem program_of_machine (h : w.session.machine = none ∨ ∃ path, w.session.program = some path) :
    ∀ t ∈ turns w ps, t.before.session.machine = none ∨ ∃ path, t.before.session.program = some path := by
  intro t ht
  induction ps generalizing w with
  | nil => cases ht
  | cons p rest ih =>
    rcases List.mem_cons.mp ht with rfl | ht
    · exact h
    · refine ih ?_ ht
      cases hl : (turn w p).loads with
      | true =>
        obtain ⟨file, _, _, _, -, -, -, -, hprogram⟩ := (done_turn w p).loaded hl
        exact Or.inr ⟨_, hprogram⟩
      | false =>
        obtain ⟨hmachine, hprogram⟩ := (done_turn w p).kept hl
        rw [hmachine, hprogram]
        exact h

/-- A result was produced by the machine of the session. -/
theorem of_result? {input : String} {r : Result} (h : t.result? = some (input, r)) :
    ∃ m size, t.before.session.machine = some m ∧ resultOf? m input size = some r := by
  unfold Turn.result? returned? at h
  split at h
  · obtain ⟨m, hm, h⟩ := Option.bind_eq_some_iff.mp h
    obtain ⟨⟨input', size⟩, -, h⟩ := Option.bind_eq_some_iff.mp h
    obtain ⟨r', hr, he⟩ := Option.map_eq_some_iff.mp h
    cases he
    exact ⟨m, size, hm, hr⟩
  · cases h

/-! ## The main log -/

/-- A change of the files that leaves what a path leads to as it is. -/
def Leaves (path : String) (others : FileTree → FileTree) : Prop :=
  ∀ t l, t.locate path = .ok l → (others t).locate path = .ok l ∧ (others t).node? l = t.node? l

/-- Entries are what the main log of a journal holds, in its place, which may be written. -/
structure LogAt (j : Journal) (l : Location) (entries : List Json) (t : FileTree) : Prop where
  located : t.locate j.mainLog = .ok l
  writable : Host.mayWrite l = true
  node : t.node? l = if entries = [] then none else some (.file (Journal.logText entries).toUTF8)

/-- The journal of a session whose logs are told apart by their names. -/
structure Ordinary (j : Journal) : Prop where
  directory : j.directory ≠ ""
  filePrefix : j.filePrefix = Settings.default.logPrefix
  dated : j.dated = true
  today : '/' ∉ j.today.toList

/-- The logs of verdicts stand elsewhere than the main log. -/
theorem Ordinary.ne_of_located {j : Journal} (hj : Ordinary j) {t : FileTree} {l lv : Location}
    {accepted : Bool} (hl : t.locate j.mainLog = .ok l)
    (hv : t.locate (j.verdictLog accepted) = .ok lv) : lv ≠ l := by
  have hname : ∀ v, j.filePrefix ++ (if j.dated then j.today else "") ≠
      Journal.verdictPrefix v ++ j.today := by
    intro v he
    rw [hj.filePrefix, hj.dated, if_pos rfl] at he
    have hfirst : ∀ v, Settings.default.logPrefix ≠ Journal.verdictPrefix v := by decide
    exact hfirst v (String.append_left_inj _ |>.mp he)
  have hplain : '/' ∉ j.filePrefix.toList := by
    rw [hj.filePrefix]
    decide
  rintro rfl
  exact Journal.apart_of_ne hj.directory hj.today hplain hname t accepted lv hl hv

namespace LogAt

variable {j : Journal} {l : Location} {entries : List Json} {tree : FileTree}

theorem free (h : LogAt j l entries tree) : tree.node? l ≠ some .directory := by
  rw [h.node]
  split <;> simp

theorem bytesAt (h : LogAt j l entries tree) :
    tree.bytesAt l = (Journal.logText entries).toUTF8 := by
  unfold FileTree.bytesAt
  rw [h.node]
  by_cases he : entries = []
  · rw [if_pos he, he]
    rfl
  · rw [if_neg he]

theorem others (h : LogAt j l entries tree) {others : FileTree → FileTree}
    (ho : Leaves j.mainLog others) : LogAt j l entries (others tree) := by
  obtain ⟨hl, hn⟩ := ho tree l h.located
  exact ⟨hl, h.writable, hn.trans h.node⟩

/-- An entry goes to the end of the main log. -/
theorem log (h : LogAt j l entries tree) (entry : Json) :
    ∃ tree', j.log tree [entry] = .ok tree' ∧ LogAt j l (entries ++ [entry]) tree' := by
  have hbytes : tree.bytesAt l ++ (Journal.logText [entry]).toUTF8 =
      (Journal.logText (entries ++ [entry])).toUTF8 := by
    rw [h.bytesAt, Journal.logText_append]
    rfl
  refine ⟨tree.put l (.file (Journal.logText (entries ++ [entry])).toUTF8), ?_, ?_, h.writable, ?_⟩
  · have hmodify := modify_of_locate h.located h.free h.writable
      fun bytes => bytes ++ (Journal.logText [entry]).toUTF8
    rw [hbytes] at hmodify
    exact hmodify
  · exact locate_mono (keepsDirectories_put h.free _) h.located
  · rw [node?_put (isAbove_eq_false_of_node? rfl h.free), if_pos rfl, if_neg (by simp)]

/-- Writing a log of a verdict leaves the main log as it is. -/
theorem verdict (h : LogAt j l entries tree) (hj : Ordinary j) {accepted : Bool} {entry : Json}
    {tree' : FileTree} (ha : Journal.appendTo tree (j.verdictLog accepted) [entry] = .ok tree') :
    LogAt j l entries tree' := by
  obtain ⟨lv, hlv, hfree, -, rfl⟩ := modify_eq_ok ha
  have hne := hj.ne_of_located h.located hlv
  refine ⟨locate_mono (keepsDirectories_put hfree _) h.located, h.writable, ?_⟩
  rw [node?_put (isAbove_eq_false_of_node? rfl hfree), if_neg hne, h.node]

/-- Logging a result puts its entry at the end of the main log, also if the log of its verdict cannot
be written. -/
theorem logResult (h : LogAt j l entries tree) (hj : Ordinary j) (program : Option String)
    (input : String) (r : Result) (now : Moment) :
    LogAt j l (entries ++ [Journal.resultEntry program input r now])
      (j.logResult tree program input r now).2 := by
  obtain ⟨tree', hlog, h'⟩ := h.log (Journal.resultEntry program input r now)
  unfold Journal.logResult Journal.logVerdict
  rw [hlog]
  simp only
  cases ha : Journal.appendTo tree' (j.verdictLog r.accepted)
      [Journal.resultEntry program input r now] with
  | error e => exact h'
  | ok tree'' => exact h'.verdict hj ha

/-- After turns the main log has the entries of their results, in order. -/
theorem turns (h : LogAt j l entries w.desk.tree) (hj : Ordinary j)
    (hjournal : w.session.journal = some j) (ho : ∀ p ∈ ps, Leaves j.mainLog p.others) :
    LogAt j l (entries ++ (turns w ps).filterMap Turn.record?)
      (worldAfter w (turns w ps)).desk.tree := by
  induction ps generalizing w entries with
  | nil => rwa [Session.turns, List.filterMap_nil, List.append_nil]
  | cons p rest ih =>
    rw [List.forall_mem_cons] at ho
    have hbefore : LogAt j l entries (turn w p).before.desk.tree := h.others ho.1
    have hdone := done_turn w p
    have htree := hdone.tree
    have hafter := hdone.journal.trans hjournal
    rw [Session.turns, worldAfter]
    cases hr : (turn w p).result? with
    | none =>
      have hrecord : (turn w p).record? = none := by rw [Turn.record?, hr]; rfl
      rw [hr] at htree
      rw [List.filterMap_cons_none hrecord]
      exact ih (htree ▸ hbefore) hafter ho.2
    | some e =>
      obtain ⟨input, r⟩ := e
      have hrecord : (turn w p).record? = some (Journal.resultEntry (turn w p).before.session.program
          input r (turn w p).now) := by rw [Turn.record?, hr]; rfl
      have hlogged : LogAt j l (entries ++ [Journal.resultEntry (turn w p).before.session.program
          input r (turn w p).now]) (turn w p).after.desk.tree := by
        have hsome : (turn w p).before.session.journal = some j := hjournal
        rw [htree, hr]
        simp only [logged, hsome]
        exact hbefore.logResult hj _ input r _
      rw [List.filterMap_cons_some hrecord, ← List.singleton_append, ← List.append_assoc]
      exact ih hlogged hafter ho.2

end LogAt

/-! ## Fresh sessions -/

/-- A fresh session has nothing loaded and no result. If it keeps a journal, then in a directory with
a name, under the prefix that it is told, with the day in the names of the logs. -/
theorem of_new {o : Options} {now : Moment} {d d' : Desk} {s : Session}
    (h : Session.new o now d = (.ok s, d')) : s.machine = none ∧ s.program = none ∧
      s.lastResult = none ∧ (o.logResults.truth = true → ∃ directory ≠ "",
        s.journal = some ⟨directory, o.logPrefix.plain, true, now.date⟩) := by
  obtain ⟨journal, d₁, hopen, hs⟩ := Task.bind_eq_ok h
  cases hs
  refine ⟨rfl, rfl, rfl, ?_⟩
  intro hlog
  rw [openJournal, if_pos hlog] at hopen
  cases hdir : o.outputDirectory with
  | string directory =>
    rw [hdir] at hopen
    obtain ⟨j, d₂, hstart, hj⟩ := Task.bind_eq_ok (Task.mapFailure_eq_ok hopen)
    cases hj
    have hne : directory ≠ "" := by
      rintro rfl
      cases hstart
    refine ⟨directory, hne, ?_⟩
    unfold Task.onTree Journal.start at hstart
    cases hmade : d.tree.makeDirectories directory with
    | mk made tree =>
      simp only [hmade] at hstart
      cases made with
      | error e => cases hstart
      | ok u =>
        cases hstart
        rfl
  | _ =>
    rw [hdir] at hopen
    cases hopen

/-- What a session remembers, given all its turns from a fresh session on. -/
structure Consistent (s : Session) (ts : List Turn) : Prop where
  /-- Nothing is loaded, or what the last turn has loaded that reported a load, or whose report the
  console refused. -/
  loaded : match (ts.filter Turn.loads).getLast? with
    | none => s.machine = none ∧ s.program = none
    | some t => t.Loaded s
  kept : ∀ t ∈ ts, t.loads = false → t.after.session.machine = t.before.session.machine ∧
    t.after.session.program = t.before.session.program
  lastResult : s.lastResult = (ts.filterMap Turn.result?).getLast?.map Prod.snd
  lastResult_kept : ∀ t ∈ ts, t.result? = none →
    t.after.session.lastResult = t.before.session.lastResult
  /-- A run whose simulation returns has a machine with its program, and shows the result last. -/
  produced : ∀ t ∈ ts, ∀ input r, t.result? = some (input, r) →
    (∃ m path size, t.before.session.machine = some m ∧ t.before.session.program = some path ∧
      resultOf? m input size = some r) ∧ t.said.getLast? = some (.plain r.describe)
  /-- Any other run shows no result. -/
  not_shown : ∀ t ∈ ts, t.result? = none → isRun t.line → ∀ r : Result,
    t.said.getLast? ≠ some (.plain r.describe)

/-- Whatever lines a fresh session is given, and whatever others do to the files in between, it is
consistent with its turns. If it keeps a journal under the default prefix, and there is nothing yet in
the place of the main log, to which its path leads and which may be written, then the main log has one
line for each run with a result, in order, as long as others leave it alone. -/
theorem turns_consistent {o : Options} {now : Moment} {d d' : Desk} {s : Session}
    (hnew : Session.new o now d = (.ok s, d')) (ps : List Prompt) :
    Consistent (worldAfter ⟨s, d'⟩ (turns ⟨s, d'⟩ ps)).session (turns ⟨s, d'⟩ ps) ∧
    (o.logResults.truth = true → o.logPrefix = .string Settings.default.logPrefix →
      ∃ j, s.journal = some j ∧ ∀ l, d'.tree.locate j.mainLog = .ok l → d'.tree.node? l = none →
        Host.mayWrite l = true → (∀ p ∈ ps, Leaves j.mainLog p.others) →
          ∀ entries, (turns ⟨s, d'⟩ ps).filterMap Turn.record? = entries →
            (worldAfter ⟨s, d'⟩ (turns ⟨s, d'⟩ ps)).desk.tree.nodeAt? j.mainLog =
              (if entries = [] then none else some (.file (Journal.logText entries).toUTF8)) ∧
            (Journal.logText entries).toList.count '\n' = entries.length) := by
  obtain ⟨hmachine, hprogram, hresult, hjournal⟩ := of_new hnew
  constructor
  · constructor
    case loaded =>
      have h := loaded_of_turns ⟨s, d'⟩ ps
      rwa [hmachine, hprogram] at h
    case kept => exact fun t ht hl => (done_of_mem ht).kept hl
    case lastResult =>
      have h := lastResult_of_turns ⟨s, d'⟩ ps
      rwa [hresult, Option.or_none] at h
    case lastResult_kept =>
      intro t ht hr
      rw [(done_of_mem ht).lastResult, hr]
      rfl
    case produced =>
      intro t ht input r hr
      obtain ⟨m, size, hm, hrun⟩ := of_result? hr
      have hloaded := (program_of_machine (Or.inl hmachine) t ht).resolve_left (by simp [hm])
      obtain ⟨path, hpath⟩ := hloaded
      exact ⟨⟨m, path, size, hm, hpath, hrun⟩, (done_of_mem ht).shown hr⟩
    case not_shown => exact fun t ht hr hrun r => (done_of_mem ht).not_shown hr hrun r
  · intro hlog hfirst
    obtain ⟨directory, hdir, hj⟩ := hjournal hlog
    rw [hfirst] at hj
    refine ⟨_, hj, ?_⟩
    rintro l hl hn hw ho entries rfl
    have hordinary : Ordinary ⟨directory, Settings.default.logPrefix, true, now.date⟩ :=
      ⟨hdir, rfl, rfl, slash_not_mem_date now⟩
    have hempty : LogAt ⟨directory, Settings.default.logPrefix, true, now.date⟩ l [] d'.tree :=
      ⟨hl, hw, by rw [hn, if_pos rfl]⟩
    have h := LogAt.turns (w := ⟨s, d'⟩) hempty hordinary hj ho
    exact ⟨(nodeAt?_of_locate h.located).trans h.node, Journal.count_newline_logText _⟩

end

/-- A session that keeps a journal in a directory. -/
def journalIn (directory : String) : Options where
  tapeSize := .int 8
  verbose := .bool false
  logResults := .bool true
  outputDirectory := .string directory
  logPrefix := .string Settings.default.logPrefix

/-- A desk with a program that accepts whatever it is given, also under a name that the console takes
for a mark, and nothing else. -/
def acceptDesk : Desk :=
  let program := "S,* -> ha,*,s\n".toUTF8
  ⟨((FileTree.empty.put ["p.tm"] (.file program)).put ["["] .directory).put ["[", "x]"]
    (.file program), #[]⟩

def acceptPrompts : List Prompt :=
  [⟨id, ⟨2024, 1, 2, 3, 4, 5, 678901⟩, "load p.tm a"⟩, ⟨id, ⟨2024, 1, 2, 3, 4, 6, 0⟩, "run aa"⟩]

/-- Whether a session on this desk passes a test. -/
def passes [Host] (directory : String) (now : Moment) (test : Session → Desk → Bool) : Bool :=
  match Session.new (journalIn directory) now acceptDesk with
  | (.ok s, d) => test s d
  | _ => false

theorem exists_of_passes [Host] {directory : String} {now : Moment} {test : Session → Desk → Bool}
    (h : passes directory now test = true) :
    ∃ s d, Session.new (journalIn directory) now acceptDesk = (.ok s, d) ∧ test s d = true := by
  unfold passes at h
  split at h
  · next s d hnew => exact ⟨s, d, hnew, h⟩
  · cases h

/-- A session of which something holds that can be tested. -/
theorem exists_of_holds [Host] {directory : String} {now : Moment} {P : Session → Desk → Prop}
    [∀ s d, Decidable (P s d)] (h : passes directory now (fun s d => P s d) = true) :
    ∃ s d, Session.new (journalIn directory) now acceptDesk = (.ok s, d) ∧ P s d := by
  obtain ⟨s, d, hnew, htest⟩ := exists_of_passes h
  exact ⟨s, d, hnew, of_decide_eq_true htest⟩

/-- A session of whose journal something holds that can be tested. -/
theorem exists_journal_of_holds [Host] {directory : String} {now : Moment}
    {P : Session → Desk → Journal → Prop} [∀ s d j, Decidable (P s d j)]
    (h : passes directory now (fun s d => s.journal.any fun j => P s d j) = true) :
    ∃ s d j, Session.new (journalIn directory) now acceptDesk = (.ok s, d) ∧
      s.journal = some j ∧ P s d j := by
  obtain ⟨s, d, hnew, htest⟩ := exists_of_passes h
  obtain ⟨j, hj, htest⟩ := (Option.any_eq_true _ _).mp htest
  exact ⟨s, d, j, hnew, hj, of_decide_eq_true htest⟩

section

attribute [local instance] Host.usual

/-- A history in which a program is loaded and run, and then loaded again by its other name. -/
def untoldPrompts : List Prompt :=
  acceptPrompts ++ [⟨id, ⟨2024, 1, 2, 3, 4, 7, 0⟩, "load [/x] a"⟩]

/-- A host whose main log may not be written. -/
@[reducible] def guardedLog : Host := Host.guarding ["n", "tmvm_2024-01-02.jsonl"]

/-- What is said and written does not always tell what was done. The directories of a path can be made
although the path leads to a file: a dot at its end asks only for what is above. Then there is nothing
in the place of the main log, and a run shows its result, but no line is written. And a program whose
name the console takes for a mark is loaded, but its load is not reported. Nor is a line written where
that is not allowed. -/
theorem history_untold : (∃ s d j,
    Session.new (journalIn "n/../p.tm/.") ⟨2024, 1, 2, 3, 4, 5, 678901⟩ acceptDesk = (.ok s, d) ∧
      s.journal = some j ∧ d.tree.nodeAt? j.mainLog = none ∧
      ((turns ⟨s, d⟩ untoldPrompts).filterMap Turn.record?).length = 1 ∧
      (turns ⟨s, d⟩ untoldPrompts).flatMap Turn.said =
        [.marked "[green]Loaded p.tm (1 states).[/green]", .plain "_aa\n^ [0]\nAccepted"] ∧
      (worldAfter ⟨s, d⟩ (turns ⟨s, d⟩ untoldPrompts)).desk.tree.nodeAt? j.mainLog = none ∧
      (worldAfter ⟨s, d⟩ (turns ⟨s, d⟩ untoldPrompts)).session.program = some "[/x]") ∧
    ∃ s d, @Session.new guardedLog (journalIn "n") ⟨2024, 1, 2, 3, 4, 5, 678901⟩ acceptDesk =
        (.ok s, d) ∧
      (@turns guardedLog ⟨s, d⟩ acceptPrompts).flatMap Turn.said =
        [.marked "[green]Loaded p.tm (1 states).[/green]", .plain "_aa\n^ [0]\nAccepted"] ∧
      (worldAfter ⟨s, d⟩ (@turns guardedLog ⟨s, d⟩ acceptPrompts)).desk.tree.node?
        ["n", "tmvm_2024-01-02.jsonl"] = none := by
  constructor
  · exact exists_journal_of_holds (by decide +kernel)
  · exact @exists_of_holds guardedLog _ _ _ _ (by decide +kernel)

/-- In a directory of its own the same session writes one line, with the program and the input. -/
theorem turns_consistent_accept : ∃ s d j,
    Session.new (journalIn "n") ⟨2024, 1, 2, 3, 4, 5, 678901⟩ acceptDesk = (.ok s, d) ∧
      s.journal = some j ∧
      Consistent (worldAfter ⟨s, d⟩ (turns ⟨s, d⟩ acceptPrompts)).session
        (turns ⟨s, d⟩ acceptPrompts) ∧
      (worldAfter ⟨s, d⟩ (turns ⟨s, d⟩ acceptPrompts)).desk.tree.nodeAt? j.mainLog =
        some (.file (Journal.logText [Journal.resultEntry (some "p.tm") "aa" ⟨"_aa_____", 0, true, 1⟩
          ⟨2024, 1, 2, 3, 4, 6, 0⟩]).toUTF8) := by
  let place : Location := ["n", "tmvm_2024-01-02.jsonl"]
  let sight (t : Turn) : Option (String × Result) × Option String × Moment :=
    (t.result?, t.before.session.program, t.now)
  let test (s : Session) (d : Desk) : Bool := s.journal.any fun j =>
    d.tree.locate j.mainLog = .ok place ∧ d.tree.node? place = none ∧
      (turns ⟨s, d⟩ acceptPrompts).map sight = [(none, none, ⟨2024, 1, 2, 3, 4, 5, 678901⟩),
        (some ("aa", ⟨"_aa_____", 0, true, 1⟩), some "p.tm", ⟨2024, 1, 2, 3, 4, 6, 0⟩)]
  have htest : passes "n" ⟨2024, 1, 2, 3, 4, 5, 678901⟩ test = true := by decide +kernel
  obtain ⟨s, d, hnew, hs⟩ := exists_of_passes htest
  obtain ⟨hconsistent, hlog⟩ := turns_consistent hnew acceptPrompts
  obtain ⟨j, hj, hlog⟩ := hlog rfl rfl
  simp only [test, hj, Option.any_some, decide_eq_true_eq] at hs
  obtain ⟨hlocate, hfree, hseen⟩ := hs
  have hrecords : (turns ⟨s, d⟩ acceptPrompts).filterMap Turn.record? =
      ((turns ⟨s, d⟩ acceptPrompts).map sight).filterMap fun x => x.1.map fun (input, r) =>
        Journal.resultEntry x.2.1 input r x.2.2 := by
    rw [List.filterMap_map]
    rfl
  rw [hseen] at hrecords
  have hothers : ∀ p ∈ acceptPrompts, Leaves j.mainLog p.others := by
    intro p hp
    have hid : p.others = id := by
      simp only [acceptPrompts, List.mem_cons, List.not_mem_nil, or_false] at hp
      rcases hp with rfl | rfl <;> rfl
    rw [hid]
    exact fun t l hl => ⟨hl, rfl⟩
  exact ⟨s, d, j, hnew, hj, hconsistent, (hlog place hlocate hfree rfl hothers _ hrecords).1⟩

end

end Session

end TapeMachine
