import TapeMachine.Proofs.Finality
import TapeMachine.Proofs.SpareTape
import TapeMachine.Sample

/-!
# Machines do not go wrong

Every run of a compiled machine keeps what the validator found, and its next step fails only at the edge
of the tape or at a symbol of the input that is no letter.

What is raised for a failure is a message that shows the head. A run may begin with a head so far out
that it cannot be shown; then its first step fails, and what is raised is the error of showing the head.
A head on the tape can always be shown, and so can all heads of a run that begins there.

## Main statements

* `raises_of_runFor` — what is raised for a failure depends on whether the first head can be shown
* `Machine.fault_of_running`, `Machine.fellOff_of_letters` — how the next step of a run can fail
* `Machine.compiled_does_not_go_wrong` — all runs of a compiled machine
-/

namespace TapeMachine

variable {c : Configuration}

/-! ## What is raised -/

/-- What is raised for a run that started in a configuration and failed. If the head can be shown at
first, it is the message of the fault. If it cannot, the run never left its first configuration, which
is off the tape, and it is the error of showing that head. -/
structure Raises [Host] (c final : Configuration) (fault : Fault) : Prop where
  message : Tape.markFault? c.head = none → fault.report final = .ok (fault.message final)
  instead : ∀ e, Tape.markFault? c.head = some e →
    final = c ∧ fault = .outside ∧ fault.report final = .error e

theorem Fault.report_eq_ok [Host] {fault : Fault} (h : Tape.markFault? c.head = none) :
    fault.report c = .ok (fault.message c) := by
  cases fault <;> simp only [report, h]

/-- A run raises what its first head lets it raise, if heads at the end of the tape can be shown. -/
theorem raises_of_runFor [Host] {p : Program} {n : Nat} {final : Configuration} {fault : Fault}
    (hsize : Tape.markFault? c.tape.size = none) (h : runFor p n c = (final, .failed fault)) :
    Raises c final fault := by
  cases hb : c.inBounds with
  | true =>
    have hshown : ∀ {head : Int}, -1 ≤ head → head ≤ c.tape.size → Tape.markFault? head = none :=
      fun h₁ h₂ => Tape.markFault?_of_le hsize h₁ h₂
    have hfirst : Tape.markFault? c.head = none := by
      obtain ⟨h₀, hlt⟩ := Configuration.inBounds_iff.mp hb
      exact hshown (by omega) (by omega)
    have hlast : Tape.markFault? final.head = none := by
      have hstands : Stands c.tape.size (final, .failed fault) := h ▸ stands_runFor n hb
      cases hstands with
      | inside hs hi _ =>
        obtain ⟨h₀, hlt⟩ := Configuration.inBounds_iff.mp hi
        exact hshown (by omega) (by omega)
      | left _ hh => exact hshown (by omega) (by omega)
      | right _ hh => exact hshown (by omega) (by omega)
    refine ⟨fun _ => Fault.report_eq_ok hlast, fun e he => ?_⟩
    rw [hfirst] at he
    cases he
  | false =>
    -- off the tape from the first, so that no step ever did anything
    have hstuck : Stuck p c .outside := .of_outside hb
    cases n with
    | zero => cases h
    | succ n =>
      rw [hstuck.runs] at h
      cases h
      exact ⟨Fault.report_eq_ok, fun e he => ⟨rfl, rfl, by simp only [Fault.report, he]⟩⟩

namespace Machine

variable {m : Machine} {source : String} {items : List Json} {contents : String} {size head : Int}
  {c₀ : Configuration}

/-- A run of a machine raises what its first head lets it raise. -/
theorem raises_of_prepare [Host] (hb : m.prepare contents size head = .ok c₀) {n : Nat}
    {final : Configuration} {fault : Fault} (h : runFor m.program n c₀ = (final, .failed fault)) :
    Raises c₀ final fault := by
  have hsize := size_of_prepare hb
  exact raises_of_runFor (Tape.markFault?_of_near (by omega) (by omega)) h

/-- A cell of the first tape that is no letter is one of the input. -/
theorem mem_symbolsOf_of_not_letter (hm : compile source items = .ok m)
    (hb : m.begin contents size head = .ok c₀) {i : Nat} {cell : Symbol}
    (hi : c₀.tape[i]? = some cell) (hn : cell ∉ m.alphabet) : cell ∈ symbolsOf contents := by
  obtain ⟨hblank, -⟩ := Alphabet.of_ofItems (compile_eq_ok.mp hm).1
  rcases (of_getElem?_first hb hi).2 with rfl | hs
  · exact absurd hblank hn
  · exact hs

/-- How a step can fail after a run that is still going: the head was off the tape from the first, or a
symbol of the input is no letter, or the step leaves the tape. -/
theorem fault_of_running (hm : compile source items = .ok m)
    (hb : m.begin contents size head = .ok c₀) {n : Nat} {c c' : Configuration} {fault : Fault}
    (hr : runFor m.program n c₀ = (c, .running)) (hs : step m.program c = (c', .failed fault)) :
    (fault = .outside ∧ n = 0) ∨
      (∃ cell, fault = .noTransition cell ∧ c.scanned? = some cell ∧ cell ∉ m.alphabet ∧
        c₀.tape[c.head.toNat]? = some cell ∧ cell ∈ symbolsOf contents) ∨
      ∃ cell t, fault = .fellOff cell t := by
  obtain ⟨hk, hin⟩ := (Keeps.of_begin hb).runFor hr
  rcases hk.fault hs with ⟨hf, ho⟩ | ⟨cell, hf, hsc, hn, hi⟩ | hf
  · refine Or.inl ⟨hf, ?_⟩
    cases n with
    | zero => rfl
    | succ n =>
      rw [hin (by omega)] at ho
      cases ho
  · exact Or.inr (Or.inl ⟨cell, hf, hsc, hn, hi, mem_symbolsOf_of_not_letter hm hb hi hn⟩)
  · exact Or.inr (Or.inr hf)

/-- On an input of letters a run that begins on the tape fails only by leaving it. -/
theorem fellOff_of_letters (hm : compile source items = .ok m)
    (hb : m.begin contents size head = .ok c₀)
    (hletters : ∀ cell ∈ symbolsOf contents, cell ∈ m.alphabet) (hon : c₀.inBounds = true) {n : Nat}
    {c : Configuration} {fault : Fault} (hr : runFor m.program n c₀ = (c, .failed fault)) :
    ∃ cell t, fault = .fellOff cell t := by
  obtain ⟨k, last, -, hrun, hs⟩ := exists_last_step hr (by simp)
  rcases fault_of_running hm hb hrun hs with ⟨rfl, rfl⟩ | ⟨cell, -, -, hn, -, hi⟩ | hf
  · cases hrun
    rcases (Keeps.of_begin hb).fault hs with ⟨-, ho⟩ | ⟨_, hf, -⟩ | ⟨_, _, hf⟩
    · rw [hon] at ho
      cases ho
    · cases hf
    · cases hf
  · exact absurd (hletters cell hi) hn
  · exact hf

/-- A machine that was compiled does not go wrong. As long as a run is going, its state is listed,
its tape has the size asked for with single characters in its cells, letters of the alphabet or what
they held at first, and after the first step the head is on the tape. The next step reads and writes
on the tape only. If it fails, then at the edge of the tape, or for want of a transition for a symbol
of the input that is no letter; and what is raised is the message of that, if the head could be shown
at first, and else the error of showing it, of the first step. So on an input of letters, with the head
on the tape at first, a run can fail only by going off the tape, and the message of that is raised. -/
theorem compiled_does_not_go_wrong [Host] (hm : compile source items = .ok m)
    (hb : m.prepare contents size head = .ok c₀) :
    (∀ n c, runFor m.program n c₀ = (c, .running) →
      c.state ∈ m.reachable ∧ (c.tape.size : Int) = size ∧
      (∀ (i : Nat) cell, c.tape[i]? = some cell →
        cell.length = 1 ∧ (cell ∈ m.alphabet ∨ c₀.tape[i]? = some cell)) ∧
      (0 < n → c.inBounds = true) ∧
      (∀ cell t, c.choose = .ok (cell, t) → c.inBounds = true) ∧
      ∀ c' fault, step m.program c = (c', .failed fault) →
        ((fault = .outside ∧ n = 0) ∨
          (∃ cell, fault = .noTransition cell ∧ c.scanned? = some cell ∧ cell ∉ m.alphabet ∧
            c₀.tape[c.head.toNat]? = some cell ∧ cell ∈ symbolsOf contents) ∨
          ∃ cell t, fault = .fellOff cell t) ∧
        Raises c₀ c' fault) ∧
    ((∀ cell ∈ symbolsOf contents, cell ∈ m.alphabet) → 0 ≤ head → head < size →
      ∀ n c fault, runFor m.program n c₀ = (c, .failed fault) →
        (∃ cell t, fault = .fellOff cell t) ∧ fault.report c = .ok (fault.message c)) := by
  obtain ⟨-, hletters⟩ := Alphabet.of_ofItems (compile_eq_ok.mp hm).1
  have hb' : m.begin contents size head = .ok c₀ := (prepare_eq_ok.mp hb).2
  have htape : (c₀.tape.size : Int) = size := by
    obtain ⟨tape, ht, rfl⟩ := begin_eq_ok.mp hb'
    exact Tape.size_of_create ht
  have hhead : c₀.head = head := head_of_prepare hb
  constructor
  · intro n c hr
    obtain ⟨hk, hin⟩ := (Keeps.of_begin hb').runFor hr
    refine ⟨hk.state, by rw [hk.size, htape], fun i cell hi => ⟨?_, hk.cells i cell hi⟩, hin,
      fun cell t hc => (Configuration.of_choose hc).1,
      fun c' fault hs => ⟨fault_of_running hm hb' hr hs, ?_⟩⟩
    · rcases hk.cells i cell hi with hl | hi
      · exact (hletters cell hl).1
      · exact (of_getElem?_first hb' hi).1
    · have hnext : runFor m.program (n + 1) c₀ = (c', .failed fault) := by
        rw [runFor_add, hr]
        exact (runFor_succ_of_not_running 0 (by simp [hs])).trans hs
      exact raises_of_prepare hb hnext
  · intro hcont h0 hlt n c fault hr
    have hon : c₀.inBounds = true := by
      rw [Configuration.inBounds_iff, hhead]
      omega
    have hmost := size_of_prepare hb
    exact ⟨fellOff_of_letters hm hb' hcont hon hr,
      (raises_of_prepare hb hr).message (Tape.markFault?_of_near (by omega) (by omega))⟩

section

attribute [local instance] Host.usual

/-- The sample program over its one letter, on two letters in four cells: it can only go off the
tape, and says so. -/
theorem compiled_does_not_go_wrong_evens : ∃ m c₀,
    compile Sample.evens (Alphabet.itemsOf Sample.evensLetters) = .ok m ∧
      m.prepare "aa" 4 0 = .ok c₀ ∧ ∀ n c fault, runFor m.program n c₀ = (c, .failed fault) →
        (∃ cell t, fault = .fellOff cell t) ∧ fault.report c = .ok (fault.message c) := by
  obtain ⟨m, hm⟩ := Sample.exists_machine Sample.evens_valid
  have hb : m.prepare "aa" 4 0 = .ok ⟨#["_", "a", "a", "_"], 0, m.start, 0⟩ :=
    prepare_eq_ok.mpr ⟨by decide, begin_eq_ok.mpr ⟨_, by rfl, rfl⟩⟩
  have ha : "a" ∈ m.alphabet := by
    have h : (Alphabet.ofItems (Alphabet.itemsOf Sample.evensLetters)).toOption =
      some ["_", "a"] := by decide +kernel
    rw [(compile_eq_ok.mp hm).1, Except.toOption, Option.some.injEq] at h
    rw [h]
    decide
  refine ⟨m, _, hm, hb, (compiled_does_not_go_wrong hm hb).2 ?_ (by decide) (by decide)⟩
  intro cell hc
  have hs : symbolsOf "aa" = ["a", "a"] := by decide +kernel
  rw [hs] at hc
  simp only [List.mem_cons, List.not_mem_nil, or_false, or_self] at hc
  rw [hc]
  exact ha

/-- With the head farther out than any text is long, a run of the sample program begins, and its first
step comes to the error of showing the head: no message is raised. -/
theorem begun_without_message : ∃ m c₀,
    compile Sample.evens (Alphabet.itemsOf Sample.evensLetters) = .ok m ∧
      m.prepare "" 8 (1 <<< 63 : Nat) = .ok c₀ ∧
      step m.program c₀ = (c₀, .failed .outside) ∧
      Fault.outside.report c₀ = .error .beyondText := by
  obtain ⟨m, hm⟩ := Sample.exists_machine Sample.evens_valid
  obtain ⟨c₀, hb, hstuck, hreport⟩ := m.begins_far
  exact ⟨m, c₀, hm, hb, hstuck.fails, hreport⟩

end

end Machine

end TapeMachine
