import TapeMachine.Proofs.Progress
import TapeMachine.Proofs.Recoding

/-!
# Both ends of the tape

A program with left and right exchanged, on the reversed tape with the head as far from the other end,
makes the same run seen from the other side: the same states at the same steps, the same verdict, and
the same failures, off the one end instead of the other.

What is raised for a failure shows the head, and that is not the same on both sides: a head far to the
right cannot be shown, a head as far to the left can. So the kind of what is raised is the same only
where both can be shown.

## Main statements

* `Recoding.carries_reversed` — steps go along with the exchange of left and right
* `Machine.ends_are_alike` — runs of every machine and of the one with left and right exchanged
-/

namespace TapeMachine

/-! ## Tapes -/

/-- What is written in a reversed tape is written in the place that was as far from the other end. -/
theorem reverse_setIfInBounds {α : Type} {xs : Array α} {i : Nat} (a : α) (h : i < xs.size) :
    (xs.setIfInBounds i a).reverse = xs.reverse.setIfInBounds (xs.size - 1 - i) a := by
  refine Array.ext_getElem? fun j => ?_
  rw [Array.getElem?_setIfInBounds, Array.size_reverse]
  rcases Nat.lt_or_ge j xs.size with hj | hj
  · rw [Array.getElem?_reverse (by rwa [Array.size_setIfInBounds]), Array.getElem?_reverse hj,
      Array.size_setIfInBounds, Array.getElem?_setIfInBounds]
    have hsame : i = xs.size - 1 - j ↔ xs.size - 1 - i = j := by omega
    simp only [hsame]
    by_cases hij : xs.size - 1 - i = j
    · rw [if_pos hij, if_pos hij, if_pos (by omega), if_pos (by omega)]
    · rw [if_neg hij, if_neg hij]
  · rw [Array.getElem?_eq_none (by simpa using hj), if_neg (by omega),
      Array.getElem?_eq_none (by simpa using hj)]

/-! ## Left and right exchanged -/

/-- The same symbols and names, with left and right exchanged. -/
def Recoding.opposite : Recoding where
  symbol := id
  name := id
  move := Move.opposite
  symbol_injective := Function.injective_id
  name_injective := Function.injective_id
  wildcard := rfl
  start := rfl
  accept := rfl
  reject := rfl

/-- The configuration seen from the other side: the tape reversed, the head as far from its other end,
and left and right exchanged in the state. -/
def Configuration.reversed (c : Configuration) : Configuration :=
  { tape := c.tape.reverse, head := c.tape.size - 1 - c.head,
    state := Recoding.opposite.state c.state, steps := c.steps }

variable {c : Configuration}

theorem Configuration.inBounds_reversed : c.reversed.inBounds = c.inBounds := by
  rw [Bool.eq_iff_iff, inBounds_iff, inBounds_iff]
  simp only [reversed, Array.size_reverse]
  omega

/-- Steps go along with the exchange of left and right: what is written and where the head goes from a
cell is the same seen from the other side. -/
theorem Recoding.carries_reversed : opposite.Carries Configuration.reversed where
  size c := Array.size_reverse
  scanned? c := by
    rw [show opposite.symbol = id from rfl, Option.map_id_fun, id_eq]
    cases hb : c.inBounds with
    | false =>
      rw [Configuration.scanned?_eq_none.mpr hb,
        Configuration.scanned?_eq_none.mpr (Configuration.inBounds_reversed.trans hb)]
    | true =>
      obtain ⟨h₀, hlt⟩ := Configuration.inBounds_iff.mp hb
      have h₀' : 0 ≤ c.reversed.head := (Configuration.inBounds_iff.mp
        (Configuration.inBounds_reversed.trans hb)).1
      rw [Configuration.scanned?, Configuration.scanned?, if_pos h₀, if_pos h₀']
      show c.tape.reverse[((c.tape.size : Int) - 1 - c.head).toNat]? = _
      rw [Array.getElem?_reverse (by omega)]
      congr 1
      omega
  act c t hb := by
    obtain ⟨h₀, hlt⟩ := Configuration.inBounds_iff.mp hb
    have hplace : ((c.tape.size : Int) - 1 - c.head).toNat = c.tape.size - 1 - c.head.toNat := by omega
    have htape : (if (opposite.transition t).writes
        then c.tape.reverse.setIfInBounds ((c.tape.size : Int) - 1 - c.head).toNat t.write
        else c.tape.reverse) = (c.act t).tape.reverse := by
      rw [writes_transition, hplace, ← reverse_setIfInBounds t.write (by omega),
        ← apply_ite Array.reverse]
      rfl
    have hhead : (c.tape.size : Int) - 1 - c.head + t.move.opposite.delta =
        (c.act t).tape.size - 1 - (c.head + t.move.delta) := by
      rw [Configuration.size_act, Move.delta_opposite]
      omega
    exact congrArg₂ (Configuration.mk · · _ _) htape hhead
  enter c s := rfl

/-! ## Runs from both sides -/

namespace Machine

/-- Both ends of the tape are treated alike. The machine with left and right exchanged, started on the
reversed tape with the head as far from the other end, goes step for step through the configurations
seen from the other side, and shows a watcher the same transitions. It returns a result with the same
verdict after as many steps, or fails at the same step for the same reason. What is raised then is the
message of that reason on each side whose first head can be shown. -/
theorem ends_are_alike [Host] (m : Machine) (c : Configuration) :
    (∀ n, runFor (Recoding.opposite.machine m).program n c.reversed =
      ((runFor m.program n c).1.reversed, Recoding.opposite.status (runFor m.program n c).2)) ∧
    (∀ n, sights (Recoding.opposite.machine m).program n c.reversed = (sights m.program n c).map
      fun x => ⟨x.before.reversed, x.cell, Recoding.opposite.transition x.transition⟩) ∧
    TapeMachine.run (Recoding.opposite.machine m).program c.reversed =
      ((TapeMachine.run m.program c).1.reversed,
        Recoding.opposite.status (TapeMachine.run m.program c).2) ∧
    (∀ n, (Result.ofRun? (runFor (Recoding.opposite.machine m).program n c.reversed)).map
        (fun r => (r.accepted, r.steps)) =
      (Result.ofRun? (runFor m.program n c)).map fun r => (r.accepted, r.steps)) ∧
    (Tape.markFault? c.tape.size = none → ∀ n final fault,
      runFor m.program n c = (final, .failed fault) →
        Raises c final fault ∧
          Raises c.reversed final.reversed (Recoding.opposite.fault fault)) := by
  have hrun := fun n => Recoding.carries_reversed.runFor m.program n c
  refine ⟨hrun, fun n => Recoding.carries_reversed.sights m.program n c,
    Recoding.carries_reversed.run m.program c, fun n => ?_, fun hsize n final fault h => ?_⟩
  · show (Result.ofRun? (runFor (Recoding.opposite.program m.program) n c.reversed)).map _ = _
    rw [hrun n]
    obtain ⟨final, status⟩ := runFor m.program n c
    cases status with
    | running => rfl
    | halted accepted => rfl
    | failed fault => rfl
  · have hsize' : Tape.markFault? c.reversed.tape.size = none := by
      rwa [Recoding.carries_reversed.size]
    have h' := hrun n
    rw [h] at h'
    exact ⟨raises_of_runFor hsize h, raises_of_runFor hsize' h'⟩

section

attribute [local instance] Host.usual

/-- The sample program on two letters in three cells goes off the right end with its third step, and
seen from the other side off the left end; each message can be given. -/
theorem ends_are_alike_evens : ∃ m final,
    compile Sample.evens (Alphabet.itemsOf Sample.evensLetters) = .ok m ∧
      let c : Configuration := ⟨#["_", "a", "a"], 0, m.start, 0⟩
      let fault : Fault := .fellOff "a" ⟨"E", "*", .right, 5⟩
      runFor m.program 3 c = (final, .failed fault) ∧
        runFor (Recoding.opposite.machine m).program 3 c.reversed =
          (final.reversed, .failed (.fellOff "a" ⟨"E", "*", .left, 5⟩)) ∧
        final.reversed.head = -1 ∧ Raises c final fault ∧
        Raises c.reversed final.reversed (.fellOff "a" ⟨"E", "*", .left, 5⟩) := by
  let first : Machine → Configuration := fun m => ⟨#["_", "a", "a"], 0, m.start, 0⟩
  let test : Machine → Bool := fun m =>
    (runFor m.program 3 (first m)).2 = .failed (.fellOff "a" ⟨"E", "*", .right, 5⟩) ∧
      (runFor m.program 3 (first m)).1.reversed.head = -1
  have htest : ((compile Sample.evens (Alphabet.itemsOf Sample.evensLetters)).toOption.any test) =
      true := by decide +kernel
  obtain ⟨m, hm, ht⟩ := Sample.exists_machine_with htest
  obtain ⟨hfails, hhead⟩ := of_decide_eq_true ht
  have hrun : runFor m.program 3 (first m) = (_, .failed (.fellOff "a" ⟨"E", "*", .right, 5⟩)) :=
    Prod.ext rfl hfails
  obtain ⟨hreversed, -, -, -, hraises⟩ := ends_are_alike m (first m)
  have hsize : Tape.markFault? (3 : Nat) = none := Tape.markFault?_of_near (by decide) (by decide)
  have hboth := hraises hsize 3 _ _ hrun
  refine ⟨m, _, hm, hrun, ?_, hhead, hboth.1, hboth.2⟩
  rw [hreversed 3, hfails]
  rfl

/-- A program that halts where it stands is itself with left and right exchanged. Off the right end,
farther out than any text is long, its step comes to the error of showing the head. Off the left end,
as far out, it comes to the message. -/
theorem ends_are_shown_differently : ∃ m,
    compile "S,* -> ha,*,s\n" (Alphabet.itemsOf "a") = .ok m ∧
      (Recoding.opposite.machine m).program.states = m.program.states ∧
      let c : Configuration := ⟨#["_", "a", "_"], (1 <<< 63 : Nat), m.start, 0⟩
      runFor m.program 1 c = (c, .failed .outside) ∧
        Fault.outside.report c = .error .beyondText ∧
        runFor (Recoding.opposite.machine m).program 1 c.reversed = (c.reversed, .failed .outside) ∧
        ∃ text, Fault.outside.report c.reversed = .ok text := by
  let test : Machine → Bool := fun m =>
    (Recoding.opposite.machine m).program.states = m.program.states
  have htest : ((compile "S,* -> ha,*,s\n" (Alphabet.itemsOf "a")).toOption.any test) = true := by
    decide +kernel
  obtain ⟨m, hm, ht⟩ := Sample.exists_machine_with htest
  let c : Configuration := ⟨#["_", "a", "_"], (1 <<< 63 : Nat), m.start, 0⟩
  have hstuck : Stuck m.program c .outside := .of_outside (by rfl)
  have hstuck' : Stuck (Recoding.opposite.machine m).program c.reversed .outside :=
    .of_outside (by rfl)
  refine ⟨m, hm, of_decide_eq_true ht, hstuck.runs 0, by rfl, hstuck'.runs 0, ?_⟩
  refine ⟨_, Fault.report_eq_ok ?_⟩
  show Tape.markFault? (3 - 1 - (1 <<< 63 : Nat)) = none
  decide +kernel

end

end Machine

end TapeMachine
