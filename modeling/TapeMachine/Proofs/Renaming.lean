import TapeMachine.Proofs.Recoding
import TapeMachine.Sample

/-!
# No letter and no name is special

Characters and names of states can be renamed, as long as different ones stay different and the blank,
the wildcard, the start state and the two halting names stay what they are. The validator does not see
the difference, and neither does a run: on the renamed contents it makes the renamed steps and ends in
the same way at the same step.

## Main statements

* `Renaming.create_text` — the fresh tape of renamed contents
* `Renaming.carries` — steps go along with the renaming
* `Machine.renaming_goes_unnoticed` — acceptance and runs of every machine under every renaming
-/

namespace TapeMachine

/-- Other characters and other names of states, with the reserved ones as they were. -/
structure Renaming where
  character : Char → Char
  name : String → String
  character_injective : Function.Injective character
  name_injective : Function.Injective name
  blank : character '_' = '_'
  wildcard : character '*' = '*'
  start : name startName = startName
  accept : name acceptName = acceptName
  reject : name rejectName = rejectName

namespace Renaming

/-! ## Texts -/

/-- A text with its characters renamed. -/
def text (ρ : Renaming) (s : String) : String := String.ofList (s.toList.map ρ.character)

variable {ρ : Renaming}

theorem toList_text (s : String) : (ρ.text s).toList = s.toList.map ρ.character :=
  String.toList_ofList

theorem text_injective (ρ : Renaming) : Function.Injective ρ.text := by
  intro s s' h
  rw [← String.toList_inj, toList_text, toList_text] at h
  exact String.toList_inj.mp (List.map_injective_iff.mpr ρ.character_injective h)

theorem length_text (s : String) : (ρ.text s).length = s.length := by
  rw [← String.length_toList, toList_text, List.length_map, String.length_toList]

theorem text_singleton (c : Char) : ρ.text (String.singleton c) = String.singleton (ρ.character c) := by
  rw [← String.toList_inj, toList_text, String.toList_singleton, String.toList_singleton]
  rfl

theorem text_blank : ρ.text Symbol.blank = Symbol.blank := by
  show ρ.text (String.singleton '_') = String.singleton '_'
  rw [text_singleton, ρ.blank]

theorem text_wildcard : ρ.text Symbol.wildcard = Symbol.wildcard := by
  show ρ.text (String.singleton '*') = String.singleton '*'
  rw [text_singleton, ρ.wildcard]

theorem symbolsOf_text (s : String) : symbolsOf (ρ.text s) = (symbolsOf s).map ρ.text := by
  rw [symbolsOf, symbolsOf, toList_text, List.map_map, List.map_map]
  exact List.map_congr_left fun c _ => (text_singleton c).symm

theorem text_join (xs : List String) : ρ.text (String.join xs) = String.join (xs.map ρ.text) := by
  induction xs with
  | nil => rfl
  | cons x xs ih =>
    rw [List.map_cons, String.join_cons, String.join_cons, ← ih, ← String.toList_inj, toList_text,
      String.toList_append, String.toList_append, toList_text, toList_text, List.map_append]

/-! ## Configurations -/

/-- The renaming of programs and alphabets. -/
def recoding (ρ : Renaming) : Recoding where
  symbol := ρ.text
  name := ρ.name
  move := id
  symbol_injective := ρ.text_injective
  name_injective := ρ.name_injective
  wildcard := text_wildcard
  start := ρ.start
  accept := ρ.accept
  reject := ρ.reject

/-- A configuration with the cells and the state renamed. -/
def configuration (ρ : Renaming) (c : Configuration) : Configuration :=
  { tape := c.tape.map ρ.text, head := c.head, state := ρ.recoding.state c.state, steps := c.steps }

def result (ρ : Renaming) (r : Result) : Result := { r with tape := ρ.text r.tape }

/-- Steps go along with the renaming: the renamed cells stand in the same places. -/
theorem carries (ρ : Renaming) : ρ.recoding.Carries ρ.configuration where
  size c := Array.size_map
  scanned? c := by
    show (if 0 ≤ c.head then (c.tape.map ρ.text)[c.head.toNat]? else none) = _
    rw [Array.getElem?_map, Configuration.scanned?, apply_ite (Option.map _)]
    rfl
  act c t _ := by
    have hwrites : (ρ.recoding.transition t).writes = t.writes := Recoding.writes_transition t
    have htape : (if (ρ.recoding.transition t).writes
        then (c.tape.map ρ.text).setIfInBounds c.head.toNat (ρ.text t.write) else c.tape.map ρ.text) =
          (c.act t).tape.map ρ.text := by
      rw [hwrites, ← Array.map_setIfInBounds, ← apply_ite (Array.map ρ.text)]
      rfl
    exact congrArg (Configuration.mk · _ _ _) htape
  enter c s := rfl

theorem contents_configuration (c : Configuration) :
    (ρ.configuration c).tape.contents = ρ.text c.tape.contents := by
  rw [Tape.contents, Tape.contents, text_join, ← Array.toList_map]
  rfl

theorem ofRun?_renamed (r : Configuration × Status) :
    Result.ofRun? (ρ.configuration r.1, ρ.recoding.status r.2) = (Result.ofRun? r).map ρ.result := by
  obtain ⟨c, s⟩ := r
  cases s with
  | running => rfl
  | failed fault => rfl
  | halted accepted =>
    simp only [Result.ofRun?, Recoding.status, Option.map_some, Result.ofFinal, result,
      contents_configuration]
    rfl

/-- The head of a failure is shown or not whatever the symbols and names are. -/
theorem report_eq_error [Host] {fault : Fault} {c : Configuration} {e : Tape.MarkFault} :
    (ρ.recoding.fault fault).report (ρ.configuration c) = .error e ↔ fault.report c = .error e := by
  have hhead : (ρ.configuration c).head = c.head := rfl
  unfold Fault.report
  rw [hhead]
  cases fault <;> cases Tape.markFault? c.head <;> simp [Recoding.fault]

/-! ## Fresh tapes -/

/-- The fresh tape of renamed contents is the fresh tape, renamed. -/
theorem create_text (contents : String) (size : Int) :
    Tape.create (ρ.text contents) size = (Tape.create contents size).map (Array.map ρ.text) := by
  have hcells : Symbol.blank :: symbolsOf (ρ.text contents) =
      (Symbol.blank :: symbolsOf contents).map ρ.text := by
    rw [symbolsOf_text, List.map_cons, text_blank]
  have hofCells : ∀ (cells : List Symbol) (n : Nat),
      Tape.ofCells (cells.map ρ.text) n = (Tape.ofCells cells n).map ρ.text := by
    intro cells n
    rw [Tape.ofCells, Tape.ofCells, Array.map_append, List.map_toArray, Array.map_replicate, text_blank,
      List.length_map]
  unfold Tape.create
  simp only [hcells, List.length_map, hofCells]
  split
  · rfl
  · split
    · rfl
    · rfl

theorem prepare_text [Host] (ρ : Renaming) (m : Machine) (contents : String) (size head : Int) :
    (ρ.recoding.machine m).prepare (ρ.text contents) size head =
      (m.prepare contents size head).map ρ.configuration := by
  have hbegin : (ρ.recoding.machine m).begin (ρ.text contents) size head =
      (m.begin contents size head).map ρ.configuration := by
    unfold Machine.begin Configuration.begin
    rw [create_text]
    cases Tape.create contents size with
    | error e => rfl
    | ok tape => rfl
  unfold Machine.prepare
  rw [hbegin, length_text]
  split
  · rfl
  · cases m.begin contents size head with
    | error e => rfl
    | ok c => rfl

/-- The letter of the sample program and the character U+0000 exchanged, and two names of states. -/
def nulForLetter : Renaming where
  character := Equiv.swap 'a' '\x00'
  name := Equiv.swap "E" "Ha"
  character_injective := Equiv.injective _
  name_injective := Equiv.injective _
  blank := by decide
  wildcard := by decide
  start := by decide
  accept := by decide
  reject := by decide

end Renaming

namespace Machine

/-- No letter and no name of a state is special beyond the reserved ones. Under every renaming the
validator gives the same answer, renamed, and so accepts the same programs. The runs of every program
go through the renamed configurations, are seen to make the renamed transitions, and end at the same
step in the same way: with the same result, its tape renamed, or with the same kind of error. A machine
begins on renamed contents as it does on the contents themselves, or fails to for the same reason. -/
theorem renaming_goes_unnoticed [Host] (ρ : Renaming) :
    (∀ (p : Program) (a : Alphabet),
      (ρ.recoding.program p).check (ρ.recoding.alphabet a) =
        ((p.check a).map ρ.recoding.state).mapError ρ.recoding.semanticError ∧
      ((∃ start, (ρ.recoding.program p).check (ρ.recoding.alphabet a) = .ok start) ↔
        ∃ start, p.check a = .ok start)) ∧
    (∀ (p : Program) (c : Configuration) (n : Nat),
      runFor (ρ.recoding.program p) n (ρ.configuration c) =
        (ρ.configuration (runFor p n c).1, ρ.recoding.status (runFor p n c).2) ∧
      sights (ρ.recoding.program p) n (ρ.configuration c) = (sights p n c).map (fun x =>
        ⟨ρ.configuration x.before, ρ.text x.cell, ρ.recoding.transition x.transition⟩) ∧
      Result.ofRun? (runFor (ρ.recoding.program p) n (ρ.configuration c)) =
        (Result.ofRun? (runFor p n c)).map ρ.result) ∧
    (∀ (fault : Fault) (c : Configuration) (e : Tape.MarkFault),
      (ρ.recoding.fault fault).report (ρ.configuration c) = .error e ↔ fault.report c = .error e) ∧
    ∀ (m : Machine) (contents : String) (size head : Int),
      (ρ.recoding.machine m).prepare (ρ.text contents) size head =
        (m.prepare contents size head).map ρ.configuration ∧
      (ρ.recoding.machine m).run (ρ.text contents) size head =
        (m.run contents size head).map fun r => (ρ.configuration r.1, ρ.recoding.status r.2) := by
  refine ⟨fun p a => ?_, fun p c n => ?_, fun _ _ _ => Renaming.report_eq_error,
    fun m contents size head => ?_⟩
  · have hcheck := ρ.recoding.check_program p a
    refine ⟨hcheck, ?_⟩
    rw [hcheck]
    cases p.check a with
    | error e => simp [Except.map, Except.mapError]
    | ok start => simp [Except.map, Except.mapError]
  · have hrun := ρ.carries.runFor p n c
    refine ⟨hrun, ρ.carries.sights p n c, ?_⟩
    rw [hrun, Renaming.ofRun?_renamed]
  · have hprepare := ρ.prepare_text m contents size head
    refine ⟨hprepare, ?_⟩
    unfold Machine.run
    rw [hprepare]
    cases m.prepare contents size head with
    | error e => rfl
    | ok c => exact congrArg Except.ok (ρ.carries.run m.program c)

section

attribute [local instance] Host.usual

/-- The sample program with its letter and U+0000 exchanged, on two characters U+0000. -/
theorem renaming_goes_unnoticed_nul : ∃ m r,
    compile Sample.evens (Alphabet.itemsOf Sample.evensLetters) = .ok m ∧
      (Renaming.nulForLetter.recoding.machine m).run "\x00\x00" 4 0 = .ok r ∧
      Result.ofRun? r = some ⟨"_\x00\x00_", 3, true, 4⟩ := by
  let test : Machine → Bool := fun m =>
    (m.run "aa" 4 0).toOption.any fun r => Result.ofRun? r = some ⟨"_aa_", 3, true, 4⟩
  have htest : ((compile Sample.evens (Alphabet.itemsOf Sample.evensLetters)).toOption.any test) =
      true := by decide +kernel
  obtain ⟨m, hm, ht⟩ := Sample.exists_machine_with htest
  have hrun := ((renaming_goes_unnoticed .nulForLetter).2.2.2 m "aa" 4 0).2
  cases hr : m.run "aa" 4 0 with
  | error e =>
    simp only [test, hr] at ht
    cases ht
  | ok r =>
    have hresult : Result.ofRun? r = some ⟨"_aa_", 3, true, 4⟩ := by
      simpa only [test, hr, Except.toOption, Option.any_some, decide_eq_true_eq] using ht
    rw [hr] at hrun
    refine ⟨m, _, hm, hrun, ?_⟩
    rw [Renaming.ofRun?_renamed, hresult]
    decide +kernel

end

end Machine

end TapeMachine
