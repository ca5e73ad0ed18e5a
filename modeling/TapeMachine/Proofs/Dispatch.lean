import TapeMachine.Proofs.Traces
import TapeMachine.Shell.Session

/-!
# What a line does to a session

A line loads a machine and reports it, or it runs the loaded machine to a result, which is shown and
logged, or it leaves the session and the files as they were, but for whether steps are shown and whether
the session goes on. This holds of every line in every world, also of lines that cannot be finished. One
of these is a line that loads a machine from a path which the console takes for marks: the machine is
there then, though nothing was reported.

## Main statements

* `Session.load_eq`, `Session.runMachine_eq` — loading and running, case by case
* `Session.load_effect` — what loading comes to
* `Session.runMachine_effect` — what running a machine comes to
* `Session.dispatch_effect` — what any line comes to
-/

namespace TapeMachine

namespace Session

variable {w : World}

/-! ## Parts of commands, one after the other -/

theorem current_eq (w : World) : current w = (.ok w.session, w) := rfl

theorem change_eq (f : Session → Session) (w : World) :
    change f w = (.ok (), { w with session := f w.session }) := rfl

theorem tree_eq (w : World) : atDesk Task.tree w = (.ok w.desk.tree, w) := rfl

theorem ofExcept_eq {α : Type} (x : Except FileFault α) (w : World) :
    atDesk (Task.ofExcept x) w = (x.mapError .file, w) := rfl

/-- The world after something was said. -/
def World.saying (w : World) (said : List Event) : World :=
  { w with desk := { w.desk with console := w.desk.console ++ said.toArray } }

theorem saying_nil (w : World) : w.saying [] = w := by simp [World.saying]

theorem saying_saying (w : World) (said said' : List Event) :
    (w.saying said).saying said' = w.saying (said ++ said') := by
  simp [World.saying, Array.append_assoc]

theorem say_of_takes [Host] {e : Event} (h : Host.takes e = true) (w : World) :
    say e w = (.ok (), w.saying [e]) := by
  simp [say, h, atDesk, Task.say, World.saying, Except.mapError]

theorem say_of_refused [Host] {e : Event} (h : Host.takes e = false) (w : World) :
    say e w = (.error .brokenMarks, w) := by
  simp only [say, h]
  rfl

/-- What is shown without marks is always said. -/
theorem say_of_markup [Host] {e : Event} (h : e.markup = false) (w : World) :
    say e w = (.ok (), w.saying [e]) := say_of_takes (Host.takes_of_markup h) w

/-- What is heard of an event: nothing, if the console refuses it. -/
def heard [Host] (e : Event) : List Event := if Host.takes e then [e] else []

theorem say_eq [Host] (e : Event) (w : World) :
    say e w = (if Host.takes e then .ok () else .error .brokenMarks, w.saying (heard e)) := by
  unfold heard
  cases h : Host.takes e with
  | true => rw [say_of_takes h, if_pos rfl, if_pos rfl]
  | false => rw [say_of_refused h, if_neg nofun, if_neg nofun, saying_nil]

theorem sayLines_eq (said : List Event) (w : World) :
    sayLines said w = (.ok (), w.saying said) := rfl

/-- Something is said, if steps are shown, before what comes next. -/
theorem showing_eq {α : Type} (said : List Event) (next : Act α) (w : World) :
    (do if (← current).verbose.truth then sayLines said
        next : Act α) w =
      next (w.saying (if w.session.verbose.truth then said else [])) := by
  rw [Task.bind_of_ok (current_eq w)]
  cases hv : w.session.verbose.truth with
  | true => rw [if_pos rfl, if_pos rfl, Task.bind_of_ok (sayLines_eq said w)]
  | false => rw [if_neg (by simp), if_neg (by simp), saying_nil]

/-! ## Loading -/

/-- What is said when there is nothing at a path. -/
def missingReport (path : String) : Event :=
  .marked s!"[red]Error in argument \x60filename\x60 - File not found: {path}[/red]"

/-- What is said when a machine was loaded. -/
def loadReport (path : String) (m : Machine) : Event :=
  .marked s!"[green]Loaded {path} ({m.program.states.length} states).[/green]"

/-- Whether an event reports that a machine was loaded. -/
def reportsLoad : Event → Bool
  | .line text _ true _ => text.toList.take 14 = "[green]Loaded ".toList
  | _ => false

theorem reportsLoad_loadReport (path : String) (m : Machine) :
    reportsLoad (loadReport path m) = true := by
  have htext : ∀ rest : String, ("[green]Loaded " ++ rest).toList.take 14 = "[green]Loaded ".toList := by
    intro rest
    rw [String.toList_append, List.take_append_of_le_length (by decide)]
    decide
  simp only [loadReport, Event.marked, reportsLoad, decide_eq_true_eq, toString, String.append_assoc]
  exact htext _

/-- A marked text with another beginning reports no load. -/
theorem reportsLoad_marked {first : String} (rest : String) (hlength : 14 ≤ first.toList.length)
    (hfirst : first.toList.take 14 ≠ "[green]Loaded ".toList) :
    reportsLoad (.marked (first ++ rest)) = false := by
  simp only [Event.marked, reportsLoad, decide_eq_false_iff_not]
  rwa [String.toList_append, List.take_append_of_le_length hlength]

/-- What is said reports no load, and does not end with a plain line. -/
structure Quiet (said : List Event) : Prop where
  load : said.any reportsLoad = false
  result : ∀ text, said.getLast? ≠ some (.plain text)

theorem quiet_nil : Quiet [] := ⟨rfl, nofun⟩

theorem quiet_styled (style text : String) : Quiet [.styled style text] :=
  ⟨rfl, by simp [Event.styled, Event.plain]⟩

theorem quiet_marked {first : String} (rest : String) (hlength : 14 ≤ first.toList.length)
    (hfirst : first.toList.take 14 ≠ "[green]Loaded ".toList) : Quiet [.marked (first ++ rest)] :=
  ⟨by simp [reportsLoad_marked rest hlength hfirst], by simp [Event.marked, Event.plain]⟩

theorem quiet_heard [Host] {e : Event} (h : Quiet [e]) : Quiet (heard e) := by
  unfold heard
  split
  · exact h
  · exact quiet_nil

/-- Loading, case by case. -/
theorem load_eq [Host] (file alphabet : String) (w : World) : load file alphabet w =
    match w.desk.tree.probe (Path.tidy file) with
    | .error e => (.error (.file e), w)
    | .ok false => say (missingReport (Path.tidy file)) w
    | .ok true =>
      match w.desk.tree.readText (Path.tidy file) with
      | .error e => (.error (.file e), w)
      | .ok source =>
        match Machine.compile source (Alphabet.itemsOf alphabet) with
        | .error e => (.ok (), w.saying
            [.styled "red" ("Error instantiating Turing Machine: " ++ e.message)])
        | .ok m => say (loadReport (Path.tidy file) m) { w with session := { w.session with
            machine := some m, program := some (Path.tidy file) } } := by
  unfold load
  simp only
  rw [Task.bind_of_ok (tree_eq w)]
  cases w.desk.tree.probe (Path.tidy file) with
  | error e => rw [Task.bind_of_error (ofExcept_eq _ w)]
  | ok there =>
    rw [Task.bind_of_ok (ofExcept_eq _ w)]
    cases there with
    | false =>
      simp only [Bool.not_false, if_true]
      rfl
    | true =>
      simp only [Bool.not_true, Bool.false_eq_true, if_false]
      cases w.desk.tree.readText (Path.tidy file) with
      | error e => rw [Task.bind_of_error (ofExcept_eq _ w)]
      | ok source =>
        rw [Task.bind_of_ok (ofExcept_eq _ w)]
        simp only
        cases Machine.compile source (Alphabet.itemsOf alphabet) with
        | error e => simp only [say_of_markup (Event.markup_styled _ _)]
        | ok m =>
          simp only
          rw [Task.bind_of_ok (change_eq _ _)]
          rfl

/-- What a line loads from the files: the path and the machine. -/
def loadOf? [Host] (t : FileTree) (line : String) : Option (String × Machine) :=
  match Shell.select commands line with
  | .act .load [file, alphabet] =>
    ((t.readText (Path.tidy file)).toOption.bind fun source =>
      (Machine.compile source (Alphabet.itemsOf alphabet)).toOption).map fun m => (Path.tidy file, m)
  | _ => none

theorem loadOf?_of_compile [Host] {t : FileTree} {line file alphabet source : String} {m : Machine}
    (hline : Shell.select commands line = .act .load [file, alphabet])
    (hsource : t.readText (Path.tidy file) = .ok source)
    (hm : Machine.compile source (Alphabet.itemsOf alphabet) = .ok m) :
    loadOf? t line = some (Path.tidy file, m) := by
  simp [loadOf?, hline, hsource, hm, Except.toOption]

theorem loadOf?_of_not_compile [Host] {t : FileTree} {line file alphabet : String}
    (hline : Shell.select commands line = .act .load [file, alphabet])
    (h : ∀ source m, t.readText (Path.tidy file) = .ok source →
      Machine.compile source (Alphabet.itemsOf alphabet) ≠ .ok m) : loadOf? t line = none := by
  unfold loadOf?
  rw [hline]
  simp only [Option.map_eq_none_iff, Option.bind_eq_none_iff]
  intro source hsource
  cases hr : t.readText (Path.tidy file) with
  | error e => simp [hr, Except.toOption] at hsource
  | ok source' =>
    cases hm : Machine.compile source (Alphabet.itemsOf alphabet) with
    | error e => rfl
    | ok m =>
      rw [hr] at hsource
      exact absurd hm (h source m (Option.some.inj hsource ▸ hr))

/-- Only a line that names a file and an alphabet loads something. -/
theorem loadOf?_eq_none [Host] {t : FileTree} {line : String}
    (h : ∀ file alphabet, Shell.select commands line ≠ .act .load [file, alphabet]) :
    loadOf? t line = none := by
  unfold loadOf?
  split
  · next hline => exact absurd hline (h _ _)
  · rfl

theorem any_reportsLoad_heard [Host] (path : String) (m : Machine) :
    (heard (loadReport path m)).any reportsLoad = Host.takes (loadReport path m) := by
  unfold heard
  cases Host.takes (loadReport path m) with
  | true => simp [reportsLoad_loadReport]
  | false => rfl

theorem quiet_missingReport (path : String) : Quiet [missingReport path] := by
  simp only [missingReport, toString, String.append_assoc]
  exact quiet_marked _ (by decide) (by decide)

/-- Where a text was read, there is something at the path. -/
theorem probe_of_readText [Host] {t : FileTree} {path text : String} (h : t.readText path = .ok text) :
    t.probe path = .ok true := by
  have hsome := FileTree.isSome_nodeAt?_of_readText h
  unfold FileTree.probe FileTree.pathExists
  split
  · next hl => simp [FileTree.nodeAt?, hl] at hsome
  · rw [hsome]

/-- A machine is loaded from the text of a file and reported if the console takes the report, or
something else is said and nothing is loaded. -/
theorem load_effect [Host] (file alphabet : String) (w : World) :
    (∃ source m, w.desk.tree.readText (Path.tidy file) = .ok source ∧
      Machine.compile source (Alphabet.itemsOf alphabet) = .ok m ∧
      (load file alphabet w).2 = World.saying { w with session := { w.session with
        machine := some m, program := some (Path.tidy file) } }
          (heard (loadReport (Path.tidy file) m))) ∨
    (∀ source m, w.desk.tree.readText (Path.tidy file) = .ok source →
      Machine.compile source (Alphabet.itemsOf alphabet) ≠ .ok m) ∧
      ∃ said, (load file alphabet w).2 = w.saying said ∧ Quiet said := by
  have idle : ∃ said, w = w.saying said ∧ Quiet said := ⟨[], (saying_nil w).symm, quiet_nil⟩
  rw [load_eq]
  cases hp : w.desk.tree.probe (Path.tidy file) with
  | error e =>
    refine Or.inr ⟨fun source m hr => ?_, idle⟩
    rw [probe_of_readText hr] at hp
    cases hp
  | ok there =>
    cases there with
    | false =>
      refine Or.inr ⟨fun source m hr => ?_, _, by rw [say_eq], quiet_heard (quiet_missingReport _)⟩
      rw [probe_of_readText hr] at hp
      cases hp
    | true =>
      cases hr : w.desk.tree.readText (Path.tidy file) with
      | error e => exact Or.inr ⟨nofun, idle⟩
      | ok source =>
        simp only
        cases hm : Machine.compile source (Alphabet.itemsOf alphabet) with
        | error e =>
          refine Or.inr ⟨?_, _, rfl, quiet_styled _ _⟩
          rintro _ m ⟨⟩ hm'
          rw [hm] at hm'
          cases hm'
        | ok m =>
          simp only [say_eq]
          exact Or.inl ⟨source, m, rfl, hm, rfl⟩

/-! ## Running -/

/-- The result of running a machine on a fresh tape to its end, if it halts. -/
def resultOf? [Host] (m : Machine) (input : String) (size : Int) : Option Result :=
  (m.run input size 0).toOption.bind Result.ofRun?

/-- The files after a result was logged, as far as it could be. -/
def logged [Host] (s : Session) (input : String) (r : Result) (now : Moment) (t : FileTree) : FileTree :=
  match s.journal with
  | none => t
  | some j => (j.logResult t s.program input r now).2

/-- Why a result could not be logged, if a journal is kept and it could not. -/
def unlogged? [Host] (s : Session) (input : String) (r : Result) (now : Moment) (t : FileTree) :
    Option FileFault :=
  s.journal.bind fun j =>
    match (j.logResult t s.program input r now).1 with
    | .error e => some e
    | .ok _ => none

theorem logResult_eq [Host] (input : String) (r : Result) (now : Moment) (w : World) :
    logResult input r now w =
      (match unlogged? w.session input r now w.desk.tree with
        | some e => .error (.file e)
        | none => .ok (),
      { w with desk := { w.desk with tree := logged w.session input r now w.desk.tree } }) := by
  unfold logResult logged unlogged?
  rw [Task.bind_of_ok (current_eq w)]
  cases w.session.journal with
  | none => rfl
  | some j =>
    simp only [Option.bind_some]
    cases hl : j.logResult w.desk.tree w.session.program input r now with
    | mk outcome t =>
      have hdesk : atDesk (Task.onTree fun t => j.logResult t w.session.program input r now) w =
          (outcome.mapError .file, { w with desk := { w.desk with tree := t } }) := by
        simp [atDesk, Task.onTree, hl]
      cases outcome with
      | error e => rw [Task.bind_of_error hdesk]
      | ok entry =>
        rw [Task.bind_of_ok hdesk]
        rfl

/-- The steps that a session shows of a run. -/
def shownSteps (s : Session) (m : Machine) (start final : Configuration) : List Event :=
  if s.verbose.truth then traceEvents m start final else []

/-- Running a machine, case by case. -/
theorem runMachine_eq [Host] (m : Machine) (input : String) (size : Int) (now : Moment) (w : World) :
    runMachine m input size now w =
      if (Host.mostCells : Int) < size then (.error (.beyondMemory size), w)
      else match m.begin input size 0 with
      | .error e => (.ok (), w.saying [.styled "red" e.message])
      | .ok start =>
        match TapeMachine.run m.program start with
        | (_, .running) => (.error .endless, w)
        | (final, .failed fault) => (.ok (), w.saying
            (shownSteps w.session m start final ++ [.styled "red" (fault.message final)]))
        | (final, .halted accepted) =>
          let r := Result.ofFinal final accepted
          logResult input r now (World.saying { w with session := { w.session with
            lastResult := some r } } (shownSteps w.session m start final ++ [.plain r.describe])) := by
  unfold runMachine
  by_cases hsize : (Host.mostCells : Int) < size
  · rw [if_pos hsize, if_pos hsize]
    rfl
  · rw [if_neg hsize, if_neg hsize]
    cases m.begin input size 0 with
    | error e => simp only [say_of_markup (Event.markup_styled _ _)]
    | ok start =>
      simp only
      generalize TapeMachine.run m.program start = ended
      obtain ⟨final, status⟩ := ended
      cases status with
      | running => rfl
      | failed fault =>
        simp only [reduceCtorEq, if_false]
        rw [showing_eq, say_of_markup (Event.markup_styled _ _), saying_saying]
        rfl
      | halted accepted =>
        simp only [reduceCtorEq, if_false]
        rw [showing_eq, Task.bind_of_ok (change_eq _ _),
          Task.bind_of_ok (say_of_markup (Event.plain_markup _) _), ← saying_saying]
        rfl

/-- The steps that are shown report no load. -/
theorem any_reportsLoad_shownSteps (s : Session) (m : Machine) (start final : Configuration) :
    (shownSteps s m start final).any reportsLoad = false := by
  unfold shownSteps
  split
  case isFalse => rfl
  rw [List.any_eq_false]
  intro e he
  obtain ⟨events, hevents, he⟩ := List.mem_flatten.mp he
  rw [traceBetween, trace_eq_map] at hevents
  obtain ⟨x, -, rfl⟩ := List.mem_map.mp hevents
  simp only [stepEvents, List.mem_cons, List.not_mem_nil, or_false] at he
  rcases he with rfl | rfl <;> simp [Event.plain, reportsLoad]

/-- A machine runs to a result, which is kept, shown last and logged, or there is no result and
nothing changes. -/
theorem runMachine_effect [Host] (m : Machine) (input : String) (size : Int) (now : Moment) (w : World) :
    (∃ r steps, resultOf? m input size = some r ∧ steps.any reportsLoad = false ∧
      (runMachine m input size now w).2 = World.saying ⟨{ w.session with lastResult := some r },
        { w.desk with tree := logged w.session input r now w.desk.tree }⟩
          (steps ++ [.plain r.describe])) ∨
    resultOf? m input size = none ∧ ∃ said, (runMachine m input size now w).2 = w.saying said ∧
      Quiet said := by
  have idle : ∃ said, w = w.saying said ∧ Quiet said := ⟨[], (saying_nil w).symm, quiet_nil⟩
  rw [runMachine_eq]
  by_cases hsize : (Host.mostCells : Int) < size
  · have hnone : resultOf? m input size = none := by
      unfold resultOf? Machine.run
      cases hp : m.prepare input size 0 with
      | error e => rfl
      | ok c => exact absurd (Machine.prepare_eq_ok.mp hp).1 (by omega)
    rw [if_pos hsize]
    exact Or.inr ⟨hnone, idle⟩
  · rw [if_neg hsize]
    unfold resultOf? Machine.run
    rw [Machine.prepare_of_le (by omega)]
    cases hb : m.begin input size 0 with
    | error e => exact Or.inr ⟨rfl, _, rfl, quiet_styled _ _⟩
    | ok start =>
      simp only [Except.mapError, Except.map, Except.toOption, Option.bind_some]
      generalize TapeMachine.run m.program start = ended
      obtain ⟨final, status⟩ := ended
      cases status with
      | running => exact Or.inr ⟨rfl, idle⟩
      | failed fault =>
        refine Or.inr ⟨rfl, _, rfl, ?_, ?_⟩
        · rw [List.any_append, any_reportsLoad_shownSteps]
          rfl
        · simp [Event.styled, Event.plain]
      | halted accepted =>
        simp only
        rw [logResult_eq]
        exact Or.inl ⟨Result.ofFinal final accepted, shownSteps w.session m start final, rfl,
          any_reportsLoad_shownSteps _ m start final, rfl⟩

/-! ## Lines -/

/-- The contents and the size of the tape that a run is asked for. -/
def tapeOf? (s : Session) : List String → Option (String × Int)
  | input :: size :: _ => (Text.integer? size).map fun n => (input, n)
  | args =>
    match s.tapeSize with
    | .int size => some (args.headD "", size)
    | _ => none

/-- Without a size among the arguments, the tape has the size that the session was told. -/
theorem tapeOf?_of_unsized (s : Session) {args : List String}
    (h : ∀ input size rest, args ≠ input :: size :: rest) :
    tapeOf? s args = match s.tapeSize with
      | .int size => some (args.headD "", size)
      | _ => none := by
  unfold tapeOf?
  split
  · next input size rest => exact absurd rfl (h input size rest)
  · rfl

/-- The input and the result of a run whose simulation returns. -/
def returned? [Host] (s : Session) (line : String) : Option (String × Result) :=
  match Shell.select commands line with
  | .act .run args => s.machine.bind fun m => (tapeOf? s args).bind fun (input, size) =>
      (resultOf? m input size).map fun r => (input, r)
  | _ => none

/-- A run loads nothing. -/
theorem loadOf?_of_returned? [Host] {s : Session} {t : FileTree} {line : String} {p : String × Result}
    (h : returned? s line = some p) : loadOf? t line = none := by
  refine loadOf?_eq_none fun file alphabet hline => ?_
  simp [returned?, hline] at h

/-- Whether a line is a run. -/
def isRun (line : String) : Prop := ∃ args, Shell.select commands line = .act .run args

/-- What a line does. -/
inductive Effect [Host] (now : Moment) (line : String) (w w' : World) : Prop where
  /-- It loads a machine, and reports it if the console takes the report. -/
  | loaded (file alphabet source : String) (m : Machine)
      (hline : Shell.select commands line = .act .load [file, alphabet])
      (hsource : w.desk.tree.readText (Path.tidy file) = .ok source)
      (hm : Machine.compile source (Alphabet.itemsOf alphabet) = .ok m)
      (hafter : w' = World.saying { w with session := { w.session with
        machine := some m, program := some (Path.tidy file) } }
          (heard (loadReport (Path.tidy file) m)))
  /-- It runs the machine to a result, which is kept, shown last and logged. -/
  | ran (input : String) (r : Result) (steps : List Event)
      (hreturned : returned? w.session line = some (input, r))
      (hload : steps.any reportsLoad = false)
      (hafter : w' = World.saying ⟨{ w.session with lastResult := some r },
        { w.desk with tree := logged w.session input r now w.desk.tree }⟩
          (steps ++ [.plain r.describe]))
  /-- It leaves the files and the session as they were, but for whether steps are shown and whether
  the session goes on. It loads nothing and reports no load, and a run shows no result. -/
  | idle (verbose : Json) (running : Bool) (said : List Event)
      (hreturned : returned? w.session line = none) (hnone : loadOf? w.desk.tree line = none)
      (hload : said.any reportsLoad = false)
      (hresult : isRun line → ∀ text, said.getLast? ≠ some (.plain text))
      (hafter : w' = World.saying { w with session := { w.session with verbose, running } } said)

/-- Nothing is done but that something quiet is said. -/
theorem Effect.quiet [Host] {now : Moment} {line : String} {w' : World} {said : List Event}
    (hreturned : returned? w.session line = none) (hnone : loadOf? w.desk.tree line = none)
    (hq : Quiet said) (hafter : w' = w.saying said) : Effect now line w w' :=
  .idle w.session.verbose w.session.running said hreturned hnone hq.load (fun _ => hq.result) hafter

/-- A line selects a command that takes as many arguments. -/
theorem of_select {line : String} {verb : Verb} {args : List String}
    (h : Shell.select commands line = .act verb args) :
    ∃ c ∈ commands, c.action = verb ∧ c.minArgs ≤ args.length ∧ args.length ≤ c.maxArgs := by
  unfold Shell.select at h
  split at h
  · cases h
  · cases h
  · next name rest hwords =>
    split at h
    · cases h
    · next c hc =>
      split at h
      · cases h
      · next hbounds =>
        cases h
        exact ⟨c, List.mem_of_find?_eq_some hc, rfl, by omega⟩

/-- Loading takes two arguments. -/
theorem args_of_select_load {line : String} {args : List String}
    (h : Shell.select commands line = .act .load args) :
    ∃ file alphabet, args = [file, alphabet] := by
  obtain ⟨c, hc, haction, hmin, hmax⟩ := of_select h
  simp only [commands, List.mem_cons, List.not_mem_nil, or_false] at hc
  rcases hc with rfl | rfl | rfl | rfl | rfl | rfl <;> cases haction
  match args, hmin, hmax with
  | [file, alphabet], _, _ => exact ⟨file, alphabet, rfl⟩

/-- What a run of a machine comes to, for the line that asks for it. -/
theorem effect_of_runMachine [Host] {now : Moment} {line : String} {m : Machine} {input : String}
    {size : Int} (hnone : loadOf? w.desk.tree line = none)
    (h : returned? w.session line = (resultOf? m input size).map fun r => (input, r)) :
    Effect now line w (runMachine m input size now w).2 := by
  rcases runMachine_effect m input size now w with
    ⟨r, steps, hr, hload, hafter⟩ | ⟨hr, said, hafter, hq⟩
  · exact .ran input r steps (by rw [h, hr, Option.map_some]) hload hafter
  · exact .quiet (by rw [h, hr, Option.map_none]) hnone hq hafter

/-- A size that is no whole number gives no result. -/
theorem refuseSize_effect [Host] (input : String) (size : Json) (w : World) :
    ∃ said, (refuseSize input size w).2 = w.saying said ∧ Quiet said := by
  have refused : ∀ text, ∃ said, (say (.styled "red" text) w).2 = w.saying said ∧ Quiet said := by
    intro text
    rw [say_of_markup (Event.markup_styled _ _)]
    exact ⟨_, rfl, quiet_styled _ _⟩
  have failed : ∃ said, ((throw .wrongKind : Act Unit) w).2 = w.saying said ∧ Quiet said :=
    ⟨[], (saying_nil w).symm, quiet_nil⟩
  unfold refuseSize
  generalize size.compareInt? 0 = zero
  generalize size.compareInt? (input.length + 1) = least
  match zero, least with
  | some .lt, _ => exact refused _
  | some .eq, _ => exact refused _
  | none, some .lt => exact refused _
  | some .gt, some .lt => exact refused _
  | none, none => exact failed
  | none, some .eq => exact failed
  | none, some .gt => exact failed
  | some .gt, none => exact failed
  | some .gt, some .eq => exact failed
  | some .gt, some .gt => exact failed

theorem runCommand_effect [Host] {now : Moment} {line : String} {args : List String}
    (h : Shell.select commands line = .act .run args) :
    Effect now line w (runCommand args now w).2 := by
  have hreturned : returned? w.session line = w.session.machine.bind fun m =>
      (tapeOf? w.session args).bind fun (input, size) =>
        (resultOf? m input size).map fun r => (input, r) := by
    unfold returned?
    rw [h]
  have hnone : loadOf? w.desk.tree line = none := loadOf?_eq_none (by simp [h])
  unfold runCommand
  rw [Task.bind_of_ok (current_eq w)]
  cases hm : w.session.machine with
  | none =>
    rw [hm] at hreturned
    simp only
    rw [say_eq]
    have hq : Quiet [.marked ("[red]No Turing machine loaded[/red]" ++ "")] :=
      quiet_marked "" (by decide) (by decide)
    rw [String.append_empty] at hq
    exact .quiet hreturned hnone (quiet_heard hq) rfl
  | some m =>
    simp only [hm, Option.bind_some] at hreturned ⊢
    split
    · next input size rest =>
      unfold readNumber
      simp only [tapeOf?] at hreturned
      cases hn : Text.integer? size with
      | none =>
        rw [hn] at hreturned
        simp only
        rw [say_eq]
        refine .quiet hreturned hnone (quiet_heard ?_) rfl
        simp only [toString, String.append_assoc]
        exact quiet_marked _ (by decide) (by decide)
      | some n =>
        rw [hn] at hreturned
        exact effect_of_runMachine hnone hreturned
    · next _ hargs =>
      rw [tapeOf?_of_unsized w.session hargs] at hreturned
      cases hs : w.session.tapeSize with
      | int n =>
        rw [hs] at hreturned
        exact effect_of_runMachine hnone hreturned
      | _ =>
        rw [hs] at hreturned
        obtain ⟨said, hafter, hq⟩ := refuseSize_effect (args.headD "") w.session.tapeSize w
        rw [hs] at hafter
        exact .quiet hreturned hnone hq hafter

/-! ## Commands that neither load nor run -/

/-- A mark of the program's own around a text of its own is taken. -/
theorem takes_own [Host] (style inner : String) {text : String} (h : text = Marks.styled style inner)
    (hs : Marks.isStyle style.toList = true) (hi : Marks.unmarked inner = true) :
    Host.takes (.marked text) = true := h ▸ Host.takes_styled_mark hs hi

theorem takes_nothingToDump [Host] : Host.takes (.marked "[red]No program to dump[/red]") = true :=
  takes_own "red" "No program to dump" (by decide) (by decide) (by decide)

theorem takes_goodbye [Host] : Host.takes (.marked "[bold green]Goodbye![/bold green]") = true :=
  takes_own "bold green" "Goodbye!" (by decide) (by decide) (by decide)

/-- Only whether steps are shown and whether the session goes on is changed, and no load is
reported. -/
def Idle (w w' : World) : Prop := ∃ verbose running said, said.any reportsLoad = false ∧
  w' = World.saying { w with session := { w.session with verbose, running } } said

theorem debug_idle [Host] (word : String) (w : World) : Idle w (debug word w).2 := by
  unfold debug
  split
  · exact ⟨.bool true, w.session.running, [], rfl, (saying_nil _).symm⟩
  · split
    · exact ⟨.bool false, w.session.running, [], rfl, (saying_nil _).symm⟩
    · exact ⟨w.session.verbose, w.session.running, _, rfl,
        by rw [say_of_markup (Event.plain_markup _)]⟩

theorem dump_idle [Host] (w : World) : Idle w (dump w).2 := by
  unfold dump
  rw [Task.bind_of_ok (current_eq w)]
  cases w.session.machine with
  | none =>
    exact ⟨w.session.verbose, w.session.running, [.marked "[red]No program to dump[/red]"],
      by decide, by simp only [say_of_takes takes_nothingToDump]⟩
  | some m =>
    exact ⟨w.session.verbose, w.session.running, [.raw m.dump], rfl,
      by simp only [say_of_markup (Event.markup_raw _)]⟩

theorem help_idle (w : World) : Idle w (help w).2 := by
  refine ⟨w.session.verbose, w.session.running, _, ?_, rfl⟩
  rw [List.any_eq_false]
  intro e he
  obtain ⟨c, -, rfl⟩ := List.mem_map.mp he
  simp [Event.plain, reportsLoad]

theorem exit_idle [Host] (w : World) : Idle w (exit w).2 := by
  unfold exit
  rw [Task.bind_of_ok (say_of_takes takes_goodbye w)]
  exact ⟨w.session.verbose, false, [.marked "[bold green]Goodbye![/bold green]"], by decide, rfl⟩

/-! ## Any line -/

/-- What a line is refused with reports no load. -/
theorem reportsLoad_of_select_refuse {line : String} {e : Event}
    (h : Shell.select commands line = .refuse (some e)) : reportsLoad e = false := by
  unfold Shell.select at h
  split at h
  · cases h
    rw [String.append_assoc]
    exact reportsLoad_marked _ (by decide) (by decide)
  · cases h
  · split at h
    · cases h
      rfl
    · split at h
      · cases h
        rfl
      · cases h

/-- The console takes what a line is refused with. -/
theorem takes_of_select_refuse [Host] {line : String} {e : Event}
    (h : Shell.select commands line = .refuse (some e)) : Host.takes e = true := by
  unfold Shell.select at h
  split at h
  · next fault _ =>
    cases h
    refine takes_own "red" ("Could not parse command: " ++ fault.message) ?_
      (by decide) ?_
    · cases fault <;> decide
    · cases fault <;> decide
  · cases h
  · split at h
    · cases h
      exact Host.takes_plain _
    · split at h
      · cases h
        exact Host.takes_plain _
      · cases h

/-- Every line does one of the three, however it ends. -/
theorem dispatch_effect [Host] (now : Moment) (line : String) (w : World) :
    Effect now line w (dispatch now line w).2 := by
  unfold dispatch
  cases hs : Shell.select commands line with
  | refuse reply =>
    have hreturned : returned? w.session line = none := by
      unfold returned?
      rw [hs]
    have hrun : ¬isRun line := by
      rintro ⟨args, hargs⟩
      rw [hs] at hargs
      cases hargs
    have hnone : loadOf? w.desk.tree line = none := loadOf?_eq_none (by simp [hs])
    cases reply with
    | none => exact .quiet hreturned hnone quiet_nil (saying_nil w).symm
    | some e =>
      simp only
      rw [Task.bind_of_ok (say_of_takes (takes_of_select_refuse hs) w)]
      refine .idle w.session.verbose w.session.running [e] hreturned hnone ?_ (fun h => absurd h hrun) rfl
      simp [reportsLoad_of_select_refuse hs]
  | act verb args =>
    have hafter : ∀ act : Act Unit, (((do act; return true) : Act Bool) w).2 = (act w).2 := by
      intro act
      cases ha : act w with
      | mk outcome w' =>
        cases outcome with
        | error e => rw [Task.bind_of_error ha]
        | ok u => rw [Task.bind_of_ok ha]; rfl
    simp only
    rw [hafter]
    -- only a run returns a result
    have hreturned : verb ≠ .run → returned? w.session line = none := by
      intro hv
      unfold returned?
      rw [hs]
      cases verb <;> first | rfl | exact absurd rfl hv
    have hrun : verb ≠ .run → ¬isRun line := by
      rintro hv ⟨args', hargs⟩
      rw [hs] at hargs
      cases hargs
      exact hv rfl
    have idle : verb ≠ .run → verb ≠ .load → Idle w (perform now verb args w).2 →
        Effect now line w (perform now verb args w).2 := by
      rintro hv hl ⟨verbose, running, said, hload, hafter⟩
      have hnone : loadOf? w.desk.tree line = none := loadOf?_eq_none (by simp [hs, hl])
      exact .idle verbose running said (hreturned hv) hnone hload (fun h => absurd h (hrun hv)) hafter
    cases verb with
    | load =>
      obtain ⟨file, alphabet, rfl⟩ := args_of_select_load hs
      rcases load_effect file alphabet w with ⟨source, m, hsource, hm, hw⟩ | ⟨hnot, said, hw, hq⟩
      · exact .loaded file alphabet source m hs hsource hm hw
      · exact .quiet (hreturned nofun) (loadOf?_of_not_compile hs hnot) hq hw
    | run => exact runCommand_effect hs
    | debug => exact idle nofun nofun (debug_idle _ w)
    | dump => exact idle nofun nofun (dump_idle w)
    | help => exact idle nofun nofun (help_idle w)
    | exit => exact idle nofun nofun (exit_idle w)

end Session

end TapeMachine
