import TapeMachine.Proofs.Sessions

/-!
# Showing steps does not interfere

A session can show the steps of its runs, and a debug line turns this on or off. Nothing else depends on
it. Without the debug lines of a script, or in a session that began with another setting, every other
line has the same outcome, says the same but for the steps that are shown, and leaves the same session
and the same files.

## Main statements

* `watchedRun_printing` — a watcher who prints every transition changes nothing about a run
* `Blind.bind`, `blind_perform` — acts that come to the same whether steps are shown or not
* `dispatch_agree` — any line, in two worlds that are alike
* `turns_agree`, `turns_undebugged_agree` — any script, with and without its debug lines
* `debug_does_not_interfere` — both for a session that begins with either setting
-/

namespace TapeMachine

namespace Session

/-! ## What is printed of a run -/

/-- A watcher who prints every transition as it comes. -/
def printing (said : List Event) (x : Sight) : List Event :=
  said ++ stepEvents x.before x.cell x.transition

/-- What the watcher has printed when the run is over. -/
def printed (m : Machine) (start : Configuration) : List Event :=
  (watchedRun printing m.program (spanTotal (spanCount m.program start) 1) start []).2

theorem foldl_printing (xs : List Sight) (said : List Event) : xs.foldl printing said =
    said ++ (xs.map fun x => stepEvents x.before x.cell x.transition).flatten := by
  induction xs generalizing said with
  | nil => simp
  | cons x xs ih => simp [ih, printing]

/-- The run goes as it goes without the watcher, and what is printed is what is shown of it. -/
theorem watchedRun_printing (m : Machine) (start : Configuration) (said : List Event) :
    watchedRun printing m.program (spanTotal (spanCount m.program start) 1) start said =
      (run m.program start, said ++ traceEvents m start (run m.program start).1) := by
  rw [watchedRun_eq, foldl_printing, traceEvents, run_eq_runFor, traceBetween_eq]

theorem printed_eq (m : Machine) (start : Configuration) :
    printed m start = traceEvents m start (run m.program start).1 := by
  rw [printed, watchedRun_printing]
  rfl

/-- The machine that a session runs for arguments, and the first configuration of the run. -/
def askedRun? [Host] (s : Session) (args : List String) : Option (Machine × Configuration) :=
  s.machine.bind fun m => (tapeOf? s args).bind fun (input, size) =>
    (m.prepare input size 0).toOption.map fun start => (m, start)

/-- The run that a line starts. -/
def runOf? [Host] (s : Session) (line : String) : Option (Machine × Configuration) :=
  match Shell.select commands line with
  | .act .run args => askedRun? s args
  | _ => none

/-- What is printed when a session that may show steps makes a run. -/
def shownOf (s : Session) : Option (Machine × Configuration) → List Event
  | some (m, start) => if s.verbose.truth then printed m start else []
  | none => []

/-- The steps that are shown when a session does a line. -/
def steps [Host] (s : Session) (line : String) : List Event := shownOf s (runOf? s line)

/-- The run that a line starts, if it starts one, ends. -/
def Ends [Host] (s : Session) (line : String) : Prop :=
  ∀ m start, runOf? s line = some (m, start) → ¬NeverEnds m.program start

/-! ## Worlds that are alike -/

/-- The session that shows steps if a value counts as true. -/
def showing (verbose : Json) (s : Session) : Session := { s with verbose }

/-- The sessions are the same but for whether steps are shown, and so are the files; other things may
have been said. -/
structure Alike (w w' : World) : Prop where
  session : ∃ verbose, w'.session = w.session.showing verbose
  tree : w'.desk.tree = w.desk.tree

section

variable {α β : Type} {w w' : World} {said said' : List Event}

theorem Alike.refl (w : World) : Alike w w := ⟨⟨w.session.verbose, rfl⟩, rfl⟩

theorem Alike.symm (h : Alike w w') : Alike w' w := by
  obtain ⟨⟨verbose, hs⟩, ht⟩ := h
  exact ⟨⟨w.session.verbose, by rw [hs]; rfl⟩, ht.symm⟩

theorem Alike.trans {w'' : World} (h : Alike w w') (h' : Alike w' w'') : Alike w w'' := by
  obtain ⟨⟨verbose, hs⟩, ht⟩ := h
  obtain ⟨⟨verbose', hs'⟩, ht'⟩ := h'
  exact ⟨⟨verbose', by rw [hs', hs]; rfl⟩, ht'.trans ht⟩

/-- The world in which steps are shown if a value counts as true. -/
def World.showing (verbose : Json) (w : World) : World :=
  { w with session := w.session.showing verbose }

theorem alike_showing (verbose : Json) (w : World) : Alike w (w.showing verbose) :=
  ⟨⟨verbose, rfl⟩, rfl⟩

theorem Alike.saying (h : Alike w w') (said said' : List Event) :
    Alike (w.saying said) (w'.saying said') := ⟨h.session, h.tree⟩

/-- Two outcomes are the same, with worlds that are alike after each has said its own. -/
structure Agree (said said' : List Event) (w w' : World) (r r' : Except Failure α × World) :
    Prop where
  outcome : r'.1 = r.1
  after : Alike r.2 r'.2
  adds : r.2.desk.console = w.desk.console ++ said.toArray
  adds' : r'.2.desk.console = w'.desk.console ++ said'.toArray

/-- What is said first comes before all else. -/
theorem Agree.of_saying {first first' : List Event} {r r' : Except Failure α × World}
    (h : Agree said said' (w.saying first) (w'.saying first') r r') :
    Agree (first ++ said) (first' ++ said') w w' r r' where
  outcome := h.outcome
  after := h.after
  adds := by rw [h.adds]; simp [World.saying]
  adds' := by rw [h.adds']; simp [World.saying]

/-- An act comes to the same in worlds that are alike. -/
def Blind (act : Act α) : Prop :=
  ∀ ⦃w w'⦄, Alike w w' → ∃ said, Agree said said w w' (act w) (act w')

/-- After acts that agree comes the same. -/
theorem Agree.bind {act : Act α} {next : α → Act β} (h : Agree said said' w w' (act w) (act w'))
    (hnext : ∀ a, Blind (next a)) :
    ∃ rest, Agree (said ++ rest) (said' ++ rest) w w' ((act >>= next) w) ((act >>= next) w') := by
  obtain ⟨houtcome, halike, hadds, hadds'⟩ := h
  cases hr : act w with
  | mk outcome v =>
    cases hr' : act w' with
    | mk outcome' v' =>
      rw [hr, hr'] at houtcome halike
      rw [hr] at hadds
      rw [hr'] at hadds'
      subst (houtcome : outcome' = outcome)
      cases outcome' with
      | error e =>
        rw [Task.bind_of_error hr, Task.bind_of_error hr']
        refine ⟨[], rfl, halike, ?_, ?_⟩
        · rw [List.append_nil]
          exact hadds
        · rw [List.append_nil]
          exact hadds'
      | ok a =>
        obtain ⟨rest, hrest⟩ := hnext a halike
        rw [Task.bind_of_ok hr, Task.bind_of_ok hr']
        refine ⟨rest, hrest.outcome, hrest.after, ?_, ?_⟩
        · rw [hrest.adds, hadds]
          simp
        · rw [hrest.adds', hadds']
          simp

namespace Blind

variable {act : Act α}

theorem bind {next : α → Act β} (h : Blind act) (hnext : ∀ a, Blind (next a)) :
    Blind (act >>= next) := by
  intro w w' hw
  obtain ⟨said, hsaid⟩ := h hw
  obtain ⟨rest, hrest⟩ := hsaid.bind hnext
  exact ⟨said ++ rest, hrest⟩

/-- What says nothing and leaves the worlds alike. -/
theorem of_silent (houtcome : ∀ w w', Alike w w' → (act w').1 = (act w).1)
    (halike : ∀ w w', Alike w w' → Alike (act w).2 (act w').2)
    (hsilent : ∀ w, (act w).2.desk.console = w.desk.console) : Blind act := by
  intro w w' h
  exact ⟨[], { outcome := houtcome w w' h, after := halike w w' h
               adds := by simp [hsilent], adds' := by simp [hsilent] }⟩

theorem pure (a : α) : Blind (Pure.pure a) :=
  of_silent (fun _ _ _ => rfl) (fun _ _ h => h) fun _ => rfl

theorem throw (e : Failure) : Blind (MonadExcept.throw e : Act α) :=
  of_silent (fun _ _ _ => rfl) (fun _ _ h => h) fun _ => rfl

theorem sayLines (said : List Event) : Blind (Session.sayLines said) :=
  fun _ _ h => ⟨said, { outcome := rfl, after := h.saying said said, adds := rfl, adds' := rfl }⟩

theorem say [Host] (e : Event) : Blind (Session.say e) := by
  intro w w' h
  rw [say_eq, say_eq]
  exact ⟨heard e, { outcome := rfl, after := h.saying _ _, adds := rfl, adds' := rfl }⟩

theorem tree : Blind (atDesk Task.tree) := by
  refine of_silent (fun w w' h => ?_) (fun _ _ h => h) fun _ => rfl
  rw [tree_eq, tree_eq, h.tree]

theorem ofExcept (x : Except FileFault α) : Blind (atDesk (Task.ofExcept x)) :=
  of_silent (fun _ _ _ => rfl) (fun _ _ h => h) fun _ => rfl

theorem onTree (f : FileTree → Except FileFault α × FileTree) : Blind (atDesk (Task.onTree f)) := by
  refine of_silent (fun w w' h => ?_) (fun w w' h => ⟨h.session, ?_⟩) fun _ => rfl
  · simp only [atDesk, Task.onTree, h.tree]
  · simp only [atDesk, Task.onTree, h.tree]

/-- A change that commutes with showing steps or not. -/
theorem change {f : Session → Session}
    (hf : ∀ s verbose, ∃ verbose', f (s.showing verbose) = (f s).showing verbose') :
    Blind (Session.change f) := by
  refine of_silent (fun _ _ _ => rfl) (fun w w' h => ⟨?_, h.tree⟩) fun _ => rfl
  obtain ⟨verbose, hs⟩ := h.session
  obtain ⟨verbose', hs'⟩ := hf w.session verbose
  exact ⟨verbose', by rw [change_eq, change_eq, hs, hs']⟩

/-- What looks at the session, but not at whether steps are shown. -/
theorem current {next : Session → Act α} (hsame : ∀ s verbose, next (s.showing verbose) = next s)
    (hnext : ∀ s, Blind (next s)) : Blind (Session.current >>= next) := by
  intro w w' h
  obtain ⟨verbose, hs⟩ := h.session
  rw [Task.bind_of_ok (current_eq w), Task.bind_of_ok (current_eq w'), hs, hsame]
  exact hnext w.session h

end Blind

/-! ## Commands -/

section

variable [Host]

theorem blind_load (file alphabet : String) : Blind (load file alphabet) := by
  refine Blind.tree.bind fun tree => (Blind.ofExcept _).bind fun there => ?_
  split
  · exact Blind.say _
  · refine (Blind.ofExcept _).bind fun source => ?_
    cases Machine.compile source (Alphabet.itemsOf alphabet) with
    | error e => exact Blind.say _
    | ok m => exact (Blind.change fun _ verbose => ⟨verbose, rfl⟩).bind fun _ => Blind.say _

theorem blind_logResult (input : String) (r : Result) (now : Moment) :
    Blind (logResult input r now) := by
  refine Blind.current (fun _ _ => rfl) fun s => ?_
  cases s.journal with
  | none => exact Blind.pure ()
  | some j => exact (Blind.onTree _).bind fun _ => Blind.pure ()

theorem blind_refuseSize (input : String) (size : Json) : Blind (refuseSize input size) := by
  unfold refuseSize
  split
  · exact Blind.say _
  · exact Blind.say _
  · exact Blind.say _
  · exact Blind.throw _

theorem blind_debug (word : String) : Blind (debug word) := by
  unfold debug
  split
  · exact Blind.change fun _ _ => ⟨.bool true, rfl⟩
  · split
    · exact Blind.change fun _ _ => ⟨.bool false, rfl⟩
    · exact Blind.say _

theorem blind_dump : Blind dump := by
  refine Blind.current (fun _ _ => rfl) fun s => ?_
  cases s.machine with
  | none => exact Blind.say _
  | some m => exact Blind.say _

theorem blind_exit : Blind exit :=
  (Blind.say _).bind fun _ => Blind.change fun _ verbose => ⟨verbose, rfl⟩

/-- Every command but a run is blind. -/
theorem blind_perform (now : Moment) {verb : Verb} (hverb : verb ≠ .run) (args : List String) :
    Blind (perform now verb args) := by
  cases verb with
  | load => exact blind_load _ _
  | run => exact absurd rfl hverb
  | debug => exact blind_debug _
  | dump => exact blind_dump
  | help => exact Blind.sayLines _
  | exit => exact blind_exit

/-! ## Runs -/

section

variable {m : Machine} {input : String} {size : Int} {now : Moment} {start : Configuration}

/-- Without a first configuration there are no steps to show. -/
theorem blind_runMachine (hnone : ∀ start, m.prepare input size 0 ≠ .ok start) :
    Blind (runMachine m input size now) := by
  unfold runMachine
  by_cases hsize : (Host.mostCells : Int) < size
  · rw [if_pos hsize]
    exact Blind.throw _
  · rw [if_neg hsize]
    cases hb : m.begin input size 0 with
    | error e => exact Blind.say _
    | ok start => exact absurd (Machine.prepare_eq_ok.mpr ⟨by omega, hb⟩) (hnone start)

/-- A run that ends shows its steps first, or not; all else is the same. -/
theorem runMachine_agree (hp : m.prepare input size 0 = .ok start)
    (hend : ¬NeverEnds m.program start) (h : Alike w w') :
    ∃ rest, Agree (shownOf w.session (some (m, start)) ++ rest)
      (shownOf w'.session (some (m, start)) ++ rest) w w' (runMachine m input size now w)
      (runMachine m input size now w') := by
  obtain ⟨hsize, hb⟩ := Machine.prepare_eq_ok.mp hp
  have hmemory : ¬(Host.mostCells : Int) < size := by omega
  have hended : (run m.program start).2 ≠ .running := fun hr => hend (neverEnds_of_run_running hr)
  -- what is done after the steps were shown
  have after : ∀ {next : Act Unit}, Blind next →
      ∃ rest, Agree (shownOf w.session (some (m, start)) ++ rest)
        (shownOf w'.session (some (m, start)) ++ rest) w w'
        (next (w.saying (shownOf w.session (some (m, start)))))
        (next (w'.saying (shownOf w'.session (some (m, start))))) := by
    intro next hnext
    obtain ⟨rest, hrest⟩ := hnext (h.saying _ _)
    exact ⟨rest, hrest.of_saying⟩
  simp only [shownOf, printed_eq] at after ⊢
  unfold runMachine
  rw [if_neg hmemory, hb]
  simp only
  generalize run m.program start = ended at hended after ⊢
  obtain ⟨final, status⟩ := ended
  cases status with
  | running => exact absurd rfl hended
  | failed fault =>
    simp only [reduceCtorEq, if_false]
    rw [showing_eq, showing_eq]
    exact after (Blind.say _)
  | halted accepted =>
    simp only [reduceCtorEq, if_false]
    rw [showing_eq, showing_eq]
    exact after ((Blind.change fun _ verbose => ⟨verbose, rfl⟩).bind fun _ =>
      (Blind.say _).bind fun _ => blind_logResult _ _ _)

end

omit [Host] in
/-- Nothing is shown where there is no run. -/
theorem Blind.agree {act : Act α} (hact : Blind act) (h : Alike w w') :
    ∃ rest, Agree (shownOf w.session none ++ rest) (shownOf w'.session none ++ rest) w w' (act w)
      (act w') := hact h

theorem runCommand_agree (now : Moment) {args : List String} (h : Alike w w')
    (hends : ∀ m start, askedRun? w.session args = some (m, start) → ¬NeverEnds m.program start) :
    ∃ rest, Agree (shownOf w.session (askedRun? w.session args) ++ rest)
      (shownOf w'.session (askedRun? w.session args) ++ rest) w w' (runCommand args now w)
      (runCommand args now w') := by
  obtain ⟨verbose, hs⟩ := h.session
  -- the machine and the size are the same in both worlds
  have hmachine : w'.session.machine = w.session.machine := by rw [hs]; rfl
  have hsize : w'.session.tapeSize = w.session.tapeSize := by rw [hs]; rfl
  have running : ∀ {m : Machine} {input : String} {size : Int},
      askedRun? w.session args = (m.prepare input size 0).toOption.map (fun start => (m, start)) →
      ∃ rest, Agree (shownOf w.session (askedRun? w.session args) ++ rest)
        (shownOf w'.session (askedRun? w.session args) ++ rest) w w'
        (runMachine m input size now w) (runMachine m input size now w') := by
    intro m input size hasked
    rw [hasked] at hends ⊢
    cases hp : m.prepare input size 0 with
    | error e => exact (blind_runMachine (by simp [hp])).agree h
    | ok start => exact runMachine_agree hp (hends m start (by rw [hp]; rfl)) h
  unfold runCommand
  rw [Task.bind_of_ok (current_eq w), Task.bind_of_ok (current_eq w'), hmachine, hsize]
  cases hm : w.session.machine with
  | none =>
    have hasked : askedRun? w.session args = none := by rw [askedRun?, hm]; rfl
    rw [hasked]
    exact (Blind.say _).agree h
  | some m =>
    simp only
    split
    · next input size rest =>
      unfold readNumber
      cases hn : Text.integer? size with
      | none =>
        have hasked : askedRun? w.session (input :: size :: rest) = none := by
          simp only [askedRun?, tapeOf?, hm, hn, Option.map_none, Option.bind_some, Option.bind_none]
        rw [hasked]
        exact (Blind.say _).agree h
      | some n =>
        refine running ?_
        simp only [askedRun?, tapeOf?, hm, hn, Option.map_some, Option.bind_some]
    · next _ hargs =>
      have htape := tapeOf?_of_unsized w.session hargs
      cases hs : w.session.tapeSize with
      | int size =>
        rw [hs] at htape
        refine running ?_
        simp only [askedRun?, hm, htape, Option.bind_some]
      | _ =>
        rw [hs] at htape
        have hasked : askedRun? w.session args = none := by
          simp only [askedRun?, hm, htape, Option.bind_some, Option.bind_none]
        rw [hasked]
        exact (blind_refuseSize _ _).agree h

/-- Which run a line starts does not depend on whether steps are shown. -/
theorem runOf?_showing (s : Session) (verbose : Json) (line : String) :
    runOf? (s.showing verbose) line = runOf? s line := rfl

/-- Any line comes to the same in worlds that are alike, but for the steps that are shown. -/
theorem dispatch_agree (now : Moment) {line : String} (h : Alike w w')
    (hends : Ends w.session line) :
    ∃ rest, Agree (steps w.session line ++ rest) (steps w'.session line ++ rest) w w'
      (dispatch now line w) (dispatch now line w') := by
  have hrun : runOf? w'.session line = runOf? w.session line := by
    obtain ⟨verbose, hs⟩ := h.session
    rw [hs, runOf?_showing]
  unfold Ends at hends
  unfold steps dispatch
  rw [hrun]
  cases hs : Shell.select commands line with
  | refuse reply =>
    have hnone : runOf? w.session line = none := by rw [runOf?, hs]
    rw [hnone]
    cases reply with
    | none => exact (Blind.pure false).agree h
    | some e => exact ((Blind.say e).bind fun _ => Blind.pure false).agree h
  | act verb args =>
    by_cases hverb : verb = .run
    · subst hverb
      have hasked : runOf? w.session line = askedRun? w.session args := by rw [runOf?, hs]
      rw [hasked] at hends ⊢
      obtain ⟨rest, hrest⟩ := runCommand_agree now h hends
      obtain ⟨rest', hrest'⟩ := hrest.bind fun _ => Blind.pure true
      rw [List.append_assoc, List.append_assoc] at hrest'
      exact ⟨rest ++ rest', hrest'⟩
    · have hnone : runOf? w.session line = none := by
        rw [runOf?, hs]
        cases verb <;> first | rfl | exact absurd rfl hverb
      rw [hnone]
      exact ((blind_perform now hverb args).bind fun _ => Blind.pure true).agree h

/-! ## Debug lines -/

/-- Whether a line is a debug command. -/
def debugs (line : String) : Bool :=
  match Text.words line with
  | .ok (name :: _) => name = "debug"
  | _ => false

/-- A debug line comes to nothing but whether steps are shown. -/
theorem alike_of_debugs (now : Moment) {line : String} (hdebug : debugs line = true) (w : World) :
    Alike w (dispatch now line w).2 := by
  have hsaying : ∀ e, Alike w (w.saying [e]) := fun e => ⟨⟨w.session.verbose, rfl⟩, rfl⟩
  unfold debugs at hdebug
  split at hdebug
  · next name args hwords =>
    have hname : name = "debug" := of_decide_eq_true hdebug
    subst hname
    have hfind : (commands.find? fun c => c.name = "debug") =
        some ⟨"debug", 1, 1, "debug <on|off>", "Toggles debug mode", .debug⟩ := rfl
    unfold dispatch Shell.select
    rw [hwords]
    simp only [hfind]
    by_cases hbounds : args.length < (1 : Int) ∨ (1 : Int) < args.length
    · rw [if_pos hbounds]
      simp only
      rw [Task.bind_of_ok (say_of_takes (Host.takes_plain _) w)]
      exact hsaying _
    · rw [if_neg hbounds]
      simp only [perform]
      unfold debug
      split
      · exact ⟨⟨.bool true, rfl⟩, rfl⟩
      · split
        · exact ⟨⟨.bool false, rfl⟩, rfl⟩
        · rw [Task.bind_of_ok (say_of_takes (Host.takes_plain _) w)]
          exact hsaying _
  · cases hdebug

/-! ## Scripts -/

namespace Turn

/-- Whether the line of the turn was done, or why it could not be finished. -/
def outcome (t : Turn) : Except Failure Bool := (dispatch t.now t.line t.before).1

/-- Two turns come to the same: the same line has the same outcome, and what was said is the same
after the steps that were shown. -/
structure Same (t t' : Turn) : Prop where
  line : t'.line = t.line
  outcome : t'.outcome = t.outcome
  said : ∃ rest, t.said = steps t.before.session t.line ++ rest ∧
    t'.said = steps t'.before.session t'.line ++ rest
  after : Alike t.after t'.after

end Turn

variable {ps : List Prompt}

theorem same_turn {p : Prompt} (h : Alike w w')
    (hends : Ends (turn w p).before.session (turn w p).line) : (turn w p).Same (turn w' p) := by
  have hbefore : Alike (turn w p).before (turn w' p).before :=
    ⟨h.session, congrArg p.others h.tree⟩
  obtain ⟨rest, hrest⟩ := dispatch_agree p.now hbefore hends
  exact ⟨rfl, hrest.outcome, ⟨rest, Turn.said_eq hrest.adds, Turn.said_eq hrest.adds'⟩, hrest.after⟩

/-- The same script comes to the same in worlds that are alike. -/
theorem turns_agree (h : Alike w w') (hends : ∀ t ∈ turns w ps, Ends t.before.session t.line) :
    List.Forall₂ Turn.Same (turns w ps) (turns w' ps) ∧
      Alike (worldAfter w (turns w ps)) (worldAfter w' (turns w' ps)) := by
  induction ps generalizing w w' with
  | nil => exact ⟨.nil, h⟩
  | cons p rest ih =>
    obtain ⟨hfirst, hrest⟩ := List.forall_mem_cons.mp hends
    have hsame : (turn w p).Same (turn w' p) := same_turn h hfirst
    obtain ⟨hturns, hafter⟩ := ih hsame.after hrest
    exact ⟨.cons hsame hturns, hafter⟩

/-- Lines as prompts, at a moment that stays, with files that no one else changes. -/
def script (now : Moment) (lines : List String) : List Prompt :=
  lines.map fun line => ⟨id, now, line⟩

/-- The lines that are no debug commands. -/
def undebugged (lines : List String) : List String := lines.filter fun line => !debugs line

omit [Host] in
theorem script_cons (now : Moment) (line : String) (rest : List String) :
    script now (line :: rest) = ⟨id, now, line⟩ :: script now rest := rfl

/-- Without its debug lines a script comes to the same in worlds that are alike. -/
theorem turns_undebugged_agree {now : Moment} {lines : List String} (h : Alike w w')
    (hends : ∀ t ∈ turns w (script now lines), Ends t.before.session t.line) :
    List.Forall₂ Turn.Same ((turns w (script now lines)).filter fun t => !debugs t.line)
        (turns w' (script now (undebugged lines))) ∧
      Alike (worldAfter w (turns w (script now lines)))
        (worldAfter w' (turns w' (script now (undebugged lines)))) := by
  induction lines generalizing w w' with
  | nil => exact ⟨.nil, h⟩
  | cons line rest ih =>
    obtain ⟨hfirst, hrest⟩ := List.forall_mem_cons.mp hends
    have hline : (turn w ⟨id, now, line⟩).line = line := rfl
    rw [script_cons, turns, worldAfter]
    cases hdebug : debugs line with
    | true =>
      -- the line is done in one world only, which stays like the other
      have hafter : Alike (turn w ⟨id, now, line⟩).after w' :=
        (alike_of_debugs now hdebug w).symm.trans h
      have hlines : undebugged (line :: rest) = undebugged rest :=
        List.filter_cons_of_neg (by simp [hdebug])
      rw [hlines, List.filter_cons_of_neg (p := fun t : Turn => !debugs t.line)
        (by simp [hline, hdebug])]
      exact ih hafter hrest
    | false =>
      have hsame : (turn w ⟨id, now, line⟩).Same (turn w' ⟨id, now, line⟩) := same_turn h hfirst
      obtain ⟨hturns, hlast⟩ := ih hsame.after hrest
      have hlines : undebugged (line :: rest) = line :: undebugged rest :=
        List.filter_cons_of_pos (by simp [hdebug])
      rw [hlines, script_cons, turns, worldAfter,
        List.filter_cons_of_pos (p := fun t : Turn => !debugs t.line) (by simp [hline, hdebug])]
      exact ⟨.cons hsame hturns, hlast⟩

/-- Showing steps interferes with nothing. A script in which all runs end comes to the same without its
debug lines, line by line and at its end: the outcomes, the machine, the program, the last result,
whether the session goes on, the files, and what was said but for the steps. So it does, with its debug
lines or without them, in a session that began with another setting. -/
theorem debug_does_not_interfere (w : World) (verbose : Json) (now : Moment) (lines : List String)
    (hends : ∀ t ∈ turns w (script now lines), Ends t.before.session t.line) :
    (List.Forall₂ Turn.Same ((turns w (script now lines)).filter fun t => !debugs t.line)
        (turns w (script now (undebugged lines))) ∧
      Alike (worldAfter w (turns w (script now lines)))
        (worldAfter w (turns w (script now (undebugged lines))))) ∧
    (List.Forall₂ Turn.Same (turns w (script now lines))
        (turns (w.showing verbose) (script now lines)) ∧
      Alike (worldAfter w (turns w (script now lines)))
        (worldAfter (w.showing verbose) (turns (w.showing verbose) (script now lines)))) ∧
    List.Forall₂ Turn.Same ((turns w (script now lines)).filter fun t => !debugs t.line)
        (turns (w.showing verbose) (script now (undebugged lines))) ∧
      Alike (worldAfter w (turns w (script now lines)))
        (worldAfter (w.showing verbose)
          (turns (w.showing verbose) (script now (undebugged lines)))) :=
  ⟨turns_undebugged_agree (Alike.refl w) hends, turns_agree (alike_showing verbose w) hends,
    turns_undebugged_agree (alike_showing verbose w) hends⟩

end

end

section

attribute [local instance] Host.usual

/-- A script that shows the steps of one of its two runs. -/
def debugLines : List String := ["load p.tm a", "debug on", "run aa", "debug off", "run a"]

/-- The session that accepts whatever it is given shows one step, and writes the same log as without
its debug lines. -/
theorem debug_does_not_interfere_accept : ∃ s d,
    Session.new (journalIn "n") ⟨2024, 1, 2, 3, 4, 5, 678901⟩ acceptDesk = (.ok s, d) ∧
      (∀ t ∈ turns ⟨s, d⟩ (script ⟨2024, 1, 2, 3, 4, 6, 0⟩ debugLines),
        Ends t.before.session t.line) ∧
      (turns ⟨s, d⟩ (script ⟨2024, 1, 2, 3, 4, 6, 0⟩ debugLines)).flatMap
        (fun t => steps t.before.session t.line) =
          [.plain "_aa\n^ [0]", .plain "1. S, _ -> ha, *, s"] ∧
      Alike (worldAfter ⟨s, d⟩ (turns ⟨s, d⟩ (script ⟨2024, 1, 2, 3, 4, 6, 0⟩ debugLines)))
        (worldAfter ⟨s, d⟩ (turns ⟨s, d⟩
          (script ⟨2024, 1, 2, 3, 4, 6, 0⟩ ["load p.tm a", "run aa", "run a"]))) := by
  let test (s : Session) (d : Desk) : Bool :=
    let ts := turns ⟨s, d⟩ (script ⟨2024, 1, 2, 3, 4, 6, 0⟩ debugLines)
    (ts.all fun t => (runOf? t.before.session t.line).all fun (m, start) =>
        (run m.program start).2 ≠ .running) &&
      ts.flatMap (fun t => steps t.before.session t.line) =
        [.plain "_aa\n^ [0]", .plain "1. S, _ -> ha, *, s"]
  have htest : passes "n" ⟨2024, 1, 2, 3, 4, 5, 678901⟩ test = true := by decide +kernel
  obtain ⟨s, d, hnew, hs⟩ := exists_of_passes htest
  simp only [test, Bool.and_eq_true, List.all_eq_true, decide_eq_true_eq] at hs
  obtain ⟨hall, hsteps⟩ := hs
  have hends : ∀ t ∈ turns ⟨s, d⟩ (script ⟨2024, 1, 2, 3, 4, 6, 0⟩ debugLines),
      Ends t.before.session t.line := by
    intro t ht m start hrun hnever
    have h := hall t ht
    rw [hrun] at h
    exact of_decide_eq_true h (run_of_neverEnds hnever)
  exact ⟨s, d, hnew, hends, hsteps,
    (debug_does_not_interfere ⟨s, d⟩ (.bool true) ⟨2024, 1, 2, 3, 4, 6, 0⟩ debugLines hends).1.2⟩

end

end Session

end TapeMachine
