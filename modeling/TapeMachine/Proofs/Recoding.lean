import TapeMachine.Program.Validity
import TapeMachine.Proofs.Traces

/-!
# Other symbols, names and directions

The rules of a program can be put in other symbols, other names of states and other directions of the
head. Nothing is lost as long as different symbols and different names stay different, and the wildcard
and the names with a meaning stay as they are. The validator walks through the recoded program as
through the other one, and finds the same start state or the same first error, recoded.

Runs need one thing more: how the configurations of one program are taken to those of the other. If the
scanned symbol and the effect of a transition go along with the recoding, so do steps and runs.

## Main statements

* `Recoding.find?_program`, `Recoding.lookup_state` — names are found and symbols looked up alike
* `Recoding.walk_program` — the walk goes through the same states
* `Recoding.check_program` — the validator gives the same answer
* `Recoding.Carries.step`, `Recoding.Carries.runFor` — a step and a run go along with the recoding
-/

namespace TapeMachine

/-! ## Tables -/

namespace Table

variable {κ κ' ν ν' : Type}

/-- The table with other keys and other values; different keys stay different. -/
def map (f : κ → κ') (hf : Function.Injective f) (g : ν → ν') (t : Table κ ν) : Table κ' ν' where
  entries := t.entries.map fun e => (f e.1, g e.2)
  nodup := by
    have hkeys : (t.entries.map fun e => (f e.1, g e.2)).map Prod.fst = t.keys.map f := by
      rw [keys, List.map_map, List.map_map]
      rfl
    rw [hkeys]
    exact t.keys_nodup.map hf

variable {f : κ → κ'} (hf : Function.Injective f) (g : ν → ν') (t : Table κ ν)

theorem values_map : (t.map f hf g).values = t.values.map g := by
  rw [values, values, map, List.map_map, List.map_map]
  rfl

variable [DecidableEq κ] [DecidableEq κ']

theorem find?_map (k : κ) : (t.map f hf g).find? (f k) = (t.find? k).map g := by
  show (t.entries.map fun e => (f e.1, g e.2)).lookup (f k) = (t.entries.lookup k).map g
  induction t.entries with
  | nil => rfl
  | cons e rest ih =>
    have hkey : (f k == f e.1) = (k == e.1) := by
      rw [Bool.eq_iff_iff, beq_iff_eq, beq_iff_eq, hf.eq_iff]
    rw [List.map_cons, List.lookup_cons, List.lookup_cons, hkey, ih]
    cases k == e.1 with
    | true => rfl
    | false => rfl

end Table

/-! ## Recodings -/

/-- Other symbols, names and directions. Different symbols and names stay different, and so do the
wildcard and the names with a meaning. -/
structure Recoding where
  symbol : Symbol → Symbol
  name : String → String
  move : Move → Move
  symbol_injective : Function.Injective symbol
  name_injective : Function.Injective name
  wildcard : symbol Symbol.wildcard = Symbol.wildcard
  start : name startName = startName
  accept : name acceptName = acceptName
  reject : name rejectName = rejectName

namespace Recoding

def transition (ρ : Recoding) (t : Transition) : Transition :=
  { next := ρ.name t.next, write := ρ.symbol t.write, move := ρ.move t.move, line := t.line }

def state (ρ : Recoding) (s : State) : State :=
  ⟨ρ.name s.name, s.rules.map ρ.symbol ρ.symbol_injective ρ.transition⟩

def program (ρ : Recoding) (p : Program) : Program where
  states := p.states.map ρ.state
  nodup := by
    have hnames : (p.states.map ρ.state).map State.name = p.names.map ρ.name := by
      rw [Program.names, List.map_map, List.map_map]
      rfl
    rw [hnames]
    exact p.nodup.map ρ.name_injective
  rules_ne_nil := by
    intro s' hs'
    obtain ⟨s, hs, rfl⟩ := List.mem_map.mp hs'
    exact fun h => p.rules_ne_nil s hs (List.map_eq_nil_iff.mp h)

def alphabet (ρ : Recoding) (a : Alphabet) : Alphabet := a.map ρ.symbol

def semanticFault (ρ : Recoding) : SemanticFault → SemanticFault
  | .badLetter item => .badLetter item
  | .wildcardLetter => .wildcardLetter
  | .reserved state => .reserved (ρ.name state)
  | .unknownTrigger state letter => .unknownTrigger (ρ.name state) (ρ.symbol letter)
  | .unknownWrite state letter => .unknownWrite (ρ.name state) (ρ.symbol letter)
  | .noStart => .noStart
  | .missingLetter state letter => .missingLetter (ρ.name state) (ρ.symbol letter)
  | .missingState state => .missingState (ρ.name state)

def semanticError (ρ : Recoding) (e : SemanticError) : SemanticError :=
  ⟨e.line, ρ.semanticFault e.fault⟩

def fault (ρ : Recoding) : Fault → Fault
  | .outside => .outside
  | .noTransition cell => .noTransition (ρ.symbol cell)
  | .fellOff cell t => .fellOff (ρ.symbol cell) (ρ.transition t)
  | .missingState name => .missingState (ρ.name name)

def status (ρ : Recoding) : Status → Status
  | .running => .running
  | .halted accepted => .halted accepted
  | .failed fault => .failed (ρ.fault fault)

variable {ρ : Recoding} {p : Program} {a : Alphabet}

/-! ## What is found -/

theorem symbol_eq_wildcard {x : Symbol} : ρ.symbol x = Symbol.wildcard ↔ x = Symbol.wildcard := by
  conv_lhs => rw [← ρ.wildcard, ρ.symbol_injective.eq_iff]

theorem symbol_mem_alphabet {x : Symbol} : ρ.symbol x ∈ ρ.alphabet a ↔ x ∈ a :=
  List.mem_map_of_injective ρ.symbol_injective

theorem name_eq_acceptName {n : String} : ρ.name n = acceptName ↔ n = acceptName := by
  conv_lhs => rw [← ρ.accept, ρ.name_injective.eq_iff]

theorem name_eq_rejectName {n : String} : ρ.name n = rejectName ↔ n = rejectName := by
  conv_lhs => rw [← ρ.reject, ρ.name_injective.eq_iff]

theorem isHalting_name (n : String) : isHalting (ρ.name n) = isHalting n := by
  unfold isHalting
  simp only [name_eq_acceptName, name_eq_rejectName]

theorem writes_transition (t : Transition) : (ρ.transition t).writes = t.writes := by
  unfold Transition.writes
  show decide (ρ.symbol t.write ≠ Symbol.wildcard) = _
  simp only [ne_eq, symbol_eq_wildcard]

theorem values_state (s : State) : (ρ.state s).rules.values = s.rules.values.map ρ.transition :=
  s.rules.values_map ρ.symbol_injective ρ.transition

/-- The rule for a trigger is found under the recoded trigger. -/
theorem find?_state (s : State) (trigger : Symbol) :
    (ρ.state s).rules.find? (ρ.symbol trigger) = (s.rules.find? trigger).map ρ.transition :=
  s.rules.find?_map ρ.symbol_injective ρ.transition trigger

theorem contains_state (s : State) (trigger : Symbol) :
    (ρ.state s).rules.contains (ρ.symbol trigger) = s.rules.contains trigger := by
  rw [Table.contains, Table.contains, find?_state, Option.isSome_map]

theorem hasWildcard_state (s : State) : (ρ.state s).hasWildcard = s.hasWildcard := by
  rw [State.hasWildcard, State.hasWildcard, ← contains_state (ρ := ρ) s, ρ.wildcard]

/-- What is looked up for a symbol is looked up for the recoded symbol. -/
theorem lookup_state (s : State) (x : Symbol) :
    (ρ.state s).lookup (ρ.symbol x) = (s.lookup x).map ρ.transition := by
  rw [State.lookup, State.lookup, Option.map_or, ← find?_state, ← find?_state, ρ.wildcard]

theorem names_program (p : Program) : (ρ.program p).names = p.names.map ρ.name := by
  rw [Program.names, Program.names, program, List.map_map, List.map_map]
  rfl

/-- The state of a name is found under the recoded name. -/
theorem find?_program (p : Program) (n : String) :
    (ρ.program p).find? (ρ.name n) = (p.find? n).map ρ.state := by
  unfold Program.find? program
  rw [List.find?_map]
  congr 2
  funext s
  show decide (ρ.name s.name = ρ.name n) = _
  rw [decide_eq_decide, ρ.name_injective.eq_iff]

theorem has_program (p : Program) (n : String) : (ρ.program p).has (ρ.name n) = p.has n := by
  rw [Bool.eq_iff_iff, Program.has_iff, Program.has_iff, names_program,
    List.mem_map_of_injective ρ.name_injective]

/-! ## The walk -/

theorem targets_state (s : State) : (ρ.state s).targets = s.targets.map ρ.name := by
  unfold State.targets
  have hnext : (ρ.state s).rules.values.map Transition.next =
      (s.rules.values.map Transition.next).map ρ.name := by
    rw [values_state, List.map_map, List.map_map]
    rfl
  rw [hnext, List.filter_map]
  simp only [Function.comp_def, isHalting_name]

theorem newTargets_state (s : State) (visited : List String) :
    (ρ.state s).newTargets (visited.map ρ.name) = (s.newTargets visited).map ρ.name := by
  unfold State.newTargets
  rw [targets_state, List.filter_map]
  simp only [Function.comp_def, List.mem_map_of_injective ρ.name_injective]

/-- The walk through the recoded program goes through the same states. -/
theorem walk_program (visited waiting : List String) :
    (ρ.program p).walk (visited.map ρ.name) (waiting.map ρ.name) =
      (p.walk visited waiting).map ρ.name := by
  have hseen : ∀ {n : String} {visited : List String},
      ρ.name n ∈ visited.map ρ.name ↔ n ∈ visited := List.mem_map_of_injective ρ.name_injective
  fun_induction Program.walk p visited waiting with
  | case1 visited => rw [List.map_nil, Program.walk]
  | case2 visited name rest hv ih => rw [List.map_cons, Program.walk_of_mem (hseen.mpr hv), ih]
  | case3 visited name rest hv hs ih =>
    have hs' : (ρ.program p).find? (ρ.name name) = none := by rw [find?_program, hs, Option.map_none]
    rw [List.map_cons, Program.walk_of_find?_none (hseen.not.mpr hv) hs', ih]
  | case4 visited name rest hv s hs _ ih =>
    have hs' : (ρ.program p).find? (ρ.name name) = some (ρ.state s) := by
      rw [find?_program, hs, Option.map_some]
    have hvisited : visited.map ρ.name ++ [ρ.name name] = (visited ++ [name]).map ρ.name := by
      rw [List.map_append, List.map_singleton]
    rw [List.map_cons, Program.walk_of_find? (hseen.not.mpr hv) hs', hvisited, newTargets_state,
      ← List.map_append, ih]

theorem reachable_program (p : Program) :
    (ρ.program p).reachable = p.reachable.map ρ.state := by
  have hwalk : (ρ.program p).walk ([] : List String) [startName] =
      (p.walk [] [startName]).map ρ.name := by
    rw [← walk_program, List.map_nil, List.map_singleton, ρ.start]
  unfold Program.reachable Program.reachableNames
  rw [hwalk, List.filterMap_map, List.map_filterMap]
  exact List.filterMap_congr fun n _ => find?_program p n

/-! ## The validator -/

theorem firstLine_state (s : State) : (ρ.state s).firstLine = s.firstLine := by
  have hleast : ∀ (ts : List Transition) (first : Int),
      leastLine first (ts.map ρ.transition) = leastLine first ts := by
    intro ts first
    rw [leastLine, leastLine, List.foldl_map]
    rfl
  unfold State.firstLine
  rw [values_state]
  cases s.rules.values with
  | nil => rfl
  | cons t rest => exact congrArg some (hleast rest t.line)

/-- The first fault of the letters of a state is the same, recoded. -/
theorem letterFault_state (s : State) :
    (ρ.state s).letterFault (ρ.alphabet a) = (s.letterFault a).map ρ.semanticError := by
  have hname : isHalting (ρ.state s).name = isHalting s.name := isHalting_name s.name
  have hentries : (ρ.state s).rules.entries =
      s.rules.entries.map fun e => (ρ.symbol e.1, ρ.transition e.2) := rfl
  have hwrite : ∀ t : Transition, (ρ.transition t).write ∈ ρ.alphabet a ↔ t.write ∈ a :=
    fun _ => symbol_mem_alphabet
  unfold State.letterFault
  rw [hname]
  cases isHalting s.name with
  | true =>
    rw [if_pos rfl, if_pos rfl, firstLine_state]
    rfl
  | false =>
    -- both searches go through the entries, and their tests say the same of an entry and its image
    simp only [Bool.false_eq_true, if_false, hentries, List.findSome?_map, Option.map_or,
      List.map_findSome?, Function.comp_def, symbol_eq_wildcard, ne_eq, symbol_mem_alphabet, hwrite,
      writes_transition, apply_ite (Option.map ρ.semanticError), Option.map_some, Option.map_none]
    rfl

/-- The first fault of the reach of a state is the same, recoded. -/
theorem coverFault_state (s : State) : (ρ.state s).coverFault (ρ.program p) (ρ.alphabet a) =
    (s.coverFault p a).map ρ.semanticError := by
  have htarget : ∀ t : Transition, (isHalting (ρ.transition t).next ||
      (ρ.program p).has (ρ.transition t).next) = (isHalting t.next || p.has t.next) := by
    intro t
    show (isHalting (ρ.name t.next) || (ρ.program p).has (ρ.name t.next)) = _
    rw [isHalting_name, has_program]
  have hletter : (ρ.alphabet a).find? (fun l => !(ρ.state s).rules.contains l) =
      (a.find? fun l => !s.rules.contains l).map ρ.symbol := by
    rw [alphabet, List.find?_map]
    simp only [Function.comp_def, contains_state]
  unfold State.coverFault
  simp only [hasWildcard_state, hletter, values_state, List.findSome?_map, Option.map_or,
    List.map_findSome?, Function.comp_def, htarget, apply_ite (Option.map ρ.semanticError),
    Option.map_some, Option.map_none, Option.map_map]
  rfl

theorem checkLetters_program (p : Program) (a : Alphabet) :
    (ρ.program p).checkLetters (ρ.alphabet a) = (p.checkLetters a).mapError ρ.semanticError := by
  have hfault : (ρ.program p).states.findSome? (fun s => s.letterFault (ρ.alphabet a)) =
      (p.states.findSome? fun s => s.letterFault a).map ρ.semanticError := by
    rw [program, List.findSome?_map, List.map_findSome?]
    simp only [Function.comp_def, letterFault_state]
  unfold Program.checkLetters
  rw [hfault]
  cases p.states.findSome? fun s => s.letterFault a with
  | none => rfl
  | some e => rfl

theorem checkCover_program (p : Program) (a : Alphabet) :
    (ρ.program p).checkCover (ρ.alphabet a) =
      ((p.checkCover a).map ρ.state).mapError ρ.semanticError := by
  have hstart : (ρ.program p).find? startName = (p.find? startName).map ρ.state := by
    rw [← find?_program, ρ.start]
  have hfault : (ρ.program p).reachable.findSome? (fun s => s.coverFault (ρ.program p) (ρ.alphabet a)) =
      (p.reachable.findSome? fun s => s.coverFault p a).map ρ.semanticError := by
    rw [reachable_program, List.findSome?_map, List.map_findSome?]
    simp only [Function.comp_def, coverFault_state]
  rw [Program.checkCover_eq, Program.checkCover_eq, hstart, hfault]
  cases p.find? startName with
  | none => rfl
  | some start =>
    cases p.reachable.findSome? fun s => s.coverFault p a with
    | none => rfl
    | some e => rfl

/-- The validator gives the same answer of the recoded program, recoded: the start state, or the first
error. -/
theorem check_program (p : Program) (a : Alphabet) : (ρ.program p).check (ρ.alphabet a) =
    ((p.check a).map ρ.state).mapError ρ.semanticError := by
  unfold Program.check
  rw [checkLetters_program, checkCover_program]
  cases p.checkLetters a with
  | error e => rfl
  | ok u => rfl

/-- The machine in other symbols, names and directions. -/
def machine (ρ : Recoding) (m : Machine) : Machine where
  alphabet := ρ.alphabet m.alphabet
  program := ρ.program m.program
  start := ρ.state m.start
  valid := by
    rw [check_program, m.valid]
    rfl

/-! ## Runs -/

theorem status_eq_running {s : Status} : ρ.status s = .running ↔ s = .running := by
  cases s <;> simp [status]

theorem ruleCount_program (p : Program) : (ρ.program p).ruleCount = p.ruleCount := by
  unfold Program.ruleCount program
  rw [List.flatMap_map, List.length_flatMap, List.length_flatMap]
  simp only [state, Table.map, List.length_map]

/-- A way from the configurations of a program to those of the recoded program. What a step depends on,
and what it does, goes along with the recoding. -/
structure Carries (ρ : Recoding) (f : Configuration → Configuration) : Prop where
  size (c : Configuration) : (f c).tape.size = c.tape.size
  scanned? (c : Configuration) : (f c).scanned? = c.scanned?.map ρ.symbol
  act (c : Configuration) (t : Transition) : c.inBounds = true →
    (f c).act (ρ.transition t) = f (c.act t)
  enter (c : Configuration) (s : State) : f { c with state := s } = { f c with state := ρ.state s }

namespace Carries

variable {f : Configuration → Configuration} {c : Configuration}

theorem state (h : ρ.Carries f) (c : Configuration) : (f c).state = ρ.state c.state := by
  show (f { c with state := c.state }).state = _
  rw [h.enter]

theorem inBounds (h : ρ.Carries f) (c : Configuration) : (f c).inBounds = c.inBounds := by
  have hnone : (f c).scanned? = none ↔ c.scanned? = none := by
    rw [h.scanned?, Option.map_eq_none_iff]
  rw [Configuration.scanned?_eq_none, Configuration.scanned?_eq_none] at hnone
  rwa [Bool.eq_iff_iff, ← not_iff_not, Bool.not_eq_true, Bool.not_eq_true]

theorem choose_of_error (h : ρ.Carries f) {fault : Fault} (hc : c.choose = .error fault) :
    (f c).choose = .error (ρ.fault fault) := by
  rw [Configuration.choose_eq_error, h.scanned?, h.state]
  rcases Configuration.choose_eq_error.mp hc with ⟨hs, rfl⟩ | ⟨cell, hs, hl, rfl⟩
  · exact Or.inl ⟨by rw [hs, Option.map_none], rfl⟩
  · exact Or.inr ⟨ρ.symbol cell, by rw [hs, Option.map_some], by rw [lookup_state, hl, Option.map_none],
      rfl⟩

theorem choose_of_ok (h : ρ.Carries f) {cell : Symbol} {t : Transition}
    (hc : c.choose = .ok (cell, t)) : (f c).choose = .ok (ρ.symbol cell, ρ.transition t) := by
  obtain ⟨hs, hl⟩ := Configuration.choose_eq_ok.mp hc
  rw [Configuration.choose_eq_ok, h.scanned?, h.state, hs, lookup_state, hl]
  exact ⟨rfl, rfl⟩

/-- Following a transition goes along with the recoding, whatever comes of it. -/
theorem follow (h : ρ.Carries f) (p : Program) {cell : Symbol} {t : Transition}
    (hb : c.inBounds = true) : follow (ρ.program p) (ρ.symbol cell) (ρ.transition t) (f c) =
      (f (follow p cell t c).1, ρ.status (follow p cell t c).2) := by
  have hact : (f c).act (ρ.transition t) = f (c.act t) := h.act c t hb
  have hin : ((f c).act (ρ.transition t)).inBounds = (c.act t).inBounds := by rw [hact, h.inBounds]
  have hhalt : isHalting (ρ.transition t).next = isHalting t.next := isHalting_name t.next
  have hfind : (ρ.program p).find? (ρ.transition t).next = (p.find? t.next).map ρ.state :=
    find?_program p t.next
  rcases follow_cases p cell t c with ⟨ho, he⟩ | ⟨hi, hh, he⟩ | ⟨hi, hh, hf, he⟩ | ⟨hi, hh, s, hf, he⟩
  · rw [he, follow_of_outside _ (hin.trans ho), hact]
    rfl
  · rw [he, follow_of_halting _ (hin.trans hi) (hhalt.trans hh), hact]
    have haccept : ((ρ.transition t).next = acceptName) = (t.next = acceptName) :=
      propext name_eq_acceptName
    simp only [haccept, status]
  · rw [hf, Option.map_none] at hfind
    rw [he, follow_of_missing _ (hin.trans hi) (hhalt.trans hh) hfind, hact]
    rfl
  · rw [hf, Option.map_some] at hfind
    rw [he, follow_of_find? _ (hin.trans hi) (hhalt.trans hh) hfind, hact]
    exact Prod.ext (h.enter (c.act t) s).symm rfl

theorem step (h : ρ.Carries f) (p : Program) (c : Configuration) :
    step (ρ.program p) (f c) = (f (step p c).1, ρ.status (step p c).2) := by
  cases hc : c.choose with
  | error fault =>
    rw [step_of_choose_error hc, step_of_choose_error (h.choose_of_error hc)]
    rfl
  | ok chosen =>
    obtain ⟨cell, t⟩ := chosen
    rw [step_of_choose_ok hc, step_of_choose_ok (h.choose_of_ok hc)]
    exact h.follow p (Configuration.of_choose hc).1

/-- Steps leave both runs going, or none. -/
theorem step_running_iff (h : ρ.Carries f) (p : Program) (c : Configuration) :
    (TapeMachine.step (ρ.program p) (f c)).2 = .running ↔ (TapeMachine.step p c).2 = .running := by
  rw [h.step]
  exact status_eq_running

/-- A run of any length goes along with the recoding. -/
theorem runFor (h : ρ.Carries f) (p : Program) (n : Nat) (c : Configuration) :
    runFor (ρ.program p) n (f c) = (f (runFor p n c).1, ρ.status (runFor p n c).2) := by
  induction n generalizing c with
  | zero => rfl
  | succ n ih =>
    have hstep := h.step p c
    by_cases hs : (TapeMachine.step p c).2 = .running
    · have hc : TapeMachine.step p c = ((TapeMachine.step p c).1, .running) := Prod.ext rfl hs
      rw [hs] at hstep
      rw [runFor_succ_of_running n hc, runFor_succ_of_running n hstep, ih]
    · have hs' := fun hr => hs ((h.step_running_iff p c).mp hr)
      rw [runFor_succ_of_not_running n hs, runFor_succ_of_not_running n hs', hstep]

/-- Runs to the end go along with the recoding: they are given as many steps. -/
theorem run (h : ρ.Carries f) (p : Program) (c : Configuration) :
    run (ρ.program p) (f c) = (f (run p c).1, ρ.status (run p c).2) := by
  have hspans : spanCount (ρ.program p) (f c) = spanCount p c := by
    unfold spanCount
    rw [h.size, ruleCount_program, program, List.length_map]
  unfold TapeMachine.run
  rw [runSpans_eq_runFor, runSpans_eq_runFor, hspans, h.runFor]

/-- A watcher is shown the same transitions, recoded, from the configurations on the way. -/
theorem sights (h : ρ.Carries f) (p : Program) (n : Nat) (c : Configuration) :
    sights (ρ.program p) n (f c) =
      (sights p n c).map fun x => ⟨f x.before, ρ.symbol x.cell, ρ.transition x.transition⟩ := by
  unfold TapeMachine.sights
  induction n generalizing c with
  | zero => rfl
  | succ n ih =>
    have hstep := h.step p c
    cases hc : c.choose with
    | error fault =>
      rw [trace_of_choose_error _ hc, trace_of_choose_error _ (h.choose_of_error hc), List.map_nil]
    | ok chosen =>
      obtain ⟨cell, t⟩ := chosen
      have hc' := h.choose_of_ok hc
      by_cases hs : (TapeMachine.step p c).2 = .running
      · rw [hs] at hstep
        rw [trace_of_running n hc (Prod.ext rfl hs), trace_of_running n hc' hstep, List.map_cons, ih]
      · have hs' := fun hr => hs ((h.step_running_iff p c).mp hr)
        rw [trace_of_not_running n hc hs, trace_of_not_running n hc' hs', List.map_singleton]

end Carries

end Recoding

end TapeMachine
