import TapeMachine.Proofs.Snapshots

/-!
# The sample program that counts in twos

The first sample program goes over the letters before the first blank in two states by turns, and
halts on that blank. So it tells even from odd, in as many steps as there are letters and two more.
Any character but the blank is a letter to it. If no blank is left for it, it goes off the tape.

## Main statements

* `Sample.leads_word` — the program goes over a word in two states by turns
* `Sample.evens_tells_parity` — how a run of the program ends, on every input and every tape
* `Sample.evens_beyond_memory` — not on a tape that no memory holds
-/

namespace TapeMachine

/-- The characters before the first blank. -/
def firstWord (contents : String) : List Symbol :=
  (symbolsOf contents).takeWhile (· ≠ Symbol.blank)

/-- On the tape a blank comes after the first word, unless the contents are all one word and there
are no spare blanks. -/
theorem firstWord_cases (contents : String) (spare : Nat) :
    (∃ rest, symbolsOf contents ++ List.replicate spare Symbol.blank =
      firstWord contents ++ Symbol.blank :: rest) ∨
    symbolsOf contents = firstWord contents ∧ spare = 0 := by
  have happend := (symbolsOf contents).takeWhile_append_dropWhile (p := (· ≠ Symbol.blank))
  cases hrest : (symbolsOf contents).dropWhile (· ≠ Symbol.blank) with
  | nil =>
    rw [hrest, List.append_nil] at happend
    cases spare with
    | zero => exact Or.inr ⟨happend.symm, rfl⟩
    | succ spare =>
      refine Or.inl ⟨List.replicate spare Symbol.blank, ?_⟩
      rw [firstWord, happend, List.replicate_succ]
  | cons cell rest =>
    have hcell := List.head?_dropWhile_not (· ≠ Symbol.blank) (symbolsOf contents)
    rw [hrest] at happend hcell
    have hblank : cell = Symbol.blank := by simpa using hcell
    refine Or.inl ⟨rest ++ List.replicate spare Symbol.blank, ?_⟩
    rw [← hblank, ← List.cons_append, ← List.append_assoc, firstWord, happend]

theorem blank_not_mem_firstWord (contents : String) : Symbol.blank ∉ firstWord contents := by
  intro h
  have hall := List.all_eq_true.mp (symbolsOf contents).all_takeWhile Symbol.blank h
  simp at hall

namespace Sample

/-! ## The program by its outlines -/

/-- The states of `evens`. -/
def evensOutlines : Outlines := [
  ("S", [("*", "E", "*", .right)]),
  ("E", [("_", "ha", "*", .stay), ("*", "O", "*", .right)]),
  ("O", [("_", "hr", "*", .stay), ("*", "E", "*", .right)])]

theorem exists_evens : ∃ m, Machine.compile evens (Alphabet.itemsOf evensLetters) = .ok m ∧
    m.program.outlines = evensOutlines :=
  exists_machine_outlines evens_valid (by decide +kernel)

/-- The state after a number of letters. -/
def turn (k : Nat) : String := if k % 2 = 0 then "E" else "O"

/-- The halting state after a number of letters. -/
def verdictAfter (k : Nat) : String := if k % 2 = 0 then "ha" else "hr"

/-- After any number of letters the program halts on a blank, and goes on to the other state on any
other symbol. -/
theorem lookup_turn (k : Nat) : evensOutlines.lookup (turn k) = some
    [(Symbol.blank, verdictAfter k, Symbol.wildcard, .stay),
      (Symbol.wildcard, turn (k + 1), Symbol.wildcard, .right)] := by
  rcases Nat.mod_two_eq_zero_or_one k with hk | hk
  · have hnext : (k + 1) % 2 ≠ 0 := by omega
    rw [turn, verdictAfter, turn, if_pos hk, if_pos hk, if_neg hnext]
    rfl
  · have hodd : k % 2 ≠ 0 := by omega
    have hnext : (k + 1) % 2 = 0 := by omega
    rw [turn, verdictAfter, turn, if_neg hodd, if_neg hodd, if_pos hnext]
    rfl

/-! ## Runs -/

/-- The program goes over a word in two states by turns. -/
theorem leads_word {word : List Symbol} (hword : Symbol.blank ∉ word) (after : List Symbol) :
    Snapshot.Leads evensOutlines (word.length + 1) ⟨startName, [], Symbol.blank :: (word ++ after)⟩
      ⟨turn word.length, word.reverse ++ [Symbol.blank], after⟩ := by
  have hscan : Snapshot.Leads evensOutlines word.length ⟨turn 0, [Symbol.blank], word ++ after⟩
      ⟨turn (0 + word.length), word.reverse ++ [Symbol.blank], after⟩ := by
    refine .scan ?_
    intro k cell hk
    refine Outlines.action?_other (lookup_turn (0 + k)) (by decide) ?_
    rintro rfl
    exact hword (List.mem_of_getElem? hk)
  rw [Nat.zero_add] at hscan
  exact .right (Outlines.action?_any rfl _) hscan

/-- On a blank after the word the program halts. -/
theorem leads_verdict {word : List Symbol} (hword : Symbol.blank ∉ word) (rest : List Symbol) :
    Snapshot.Leads evensOutlines (word.length + 1 + 1)
      ⟨startName, [], Symbol.blank :: (word ++ Symbol.blank :: rest)⟩
      ⟨verdictAfter word.length, word.reverse ++ [Symbol.blank], Symbol.blank :: rest⟩ := by
  refine (leads_word hword (Symbol.blank :: rest)).trans ?_
  exact .stay (Outlines.action?_one (lookup_turn word.length)) (.refl _)

theorem isHalting_verdictAfter (k : Nat) : isHalting (verdictAfter k) = true := by
  unfold verdictAfter
  split <;> rfl

theorem verdictAfter_eq_acceptName (k : Nat) : verdictAfter k = acceptName ↔ k % 2 = 0 := by
  unfold verdictAfter
  split
  · next h => simp [h, acceptName]
  · next h => simp [h, acceptName]

section

variable {m : Machine} (hm : m.program.outlines = evensOutlines) {contents : String}

include hm

/-- With a blank after the first word, the run halts on it. -/
theorem run_of_blank [Host] {spare : Nat} (hsize : contents.length + 1 + spare ≤ Host.mostCells)
    {rest : List Symbol} (hcells : symbolsOf contents ++ List.replicate spare Symbol.blank =
      firstWord contents ++ Symbol.blank :: rest) :
    ∃ final, m.run contents (contents.length + 1 + spare : Nat) 0 =
        .ok (final, .halted ((firstWord contents).length % 2 = 0)) ∧
      final.tape = Tape.ofCells (Symbol.blank :: symbolsOf contents) (contents.length + 1 + spare) ∧
      final.head = (firstWord contents).length + 1 ∧
      final.steps = (firstWord contents).length + 2 := by
  have hl := leads_verdict (blank_not_mem_firstWord contents) rest
  rw [← hcells, ← hm] at hl
  obtain ⟨final, hrun, hcuts, hsteps⟩ :=
    Machine.run_of_leads_halting hsize hl (isHalting_verdictAfter _) nofun
  simp only [verdictAfter_eq_acceptName] at hrun
  refine ⟨final, hrun, ?_, ?_, hsteps⟩
  · exact hcuts.tape spare (by simp [hcells]) (by rw [List.length_cons, length_symbolsOf])
  · rw [hcuts.head]
    simp

/-- Where the contents are all one word and fill the tape, the run goes off the right end. -/
theorem run_of_full [Host] (hsize : contents.length + 1 ≤ Host.mostCells)
    (hcells : symbolsOf contents = firstWord contents) :
    ∃ final cell t, m.run contents (contents.length + 1 : Nat) 0 =
        .ok (final, .failed (.fellOff cell t)) ∧
      final.tape = Tape.ofCells (Symbol.blank :: symbolsOf contents) (contents.length + 1) ∧
      final.head = contents.length + 1 := by
  have hword := leads_word (blank_not_mem_firstWord contents) []
  rw [← hcells, ← hm] at hword
  have hl : Snapshot.Leads m.program.outlines ((symbolsOf contents).length + 1)
      (Snapshot.first contents 0) _ := hword
  obtain ⟨final, cell, t, hrun, hcuts, -⟩ := Machine.run_of_leads_off hsize hl rfl
  refine ⟨final, cell, t, hrun, ?_, ?_⟩
  · exact hcuts.tape 0 (by simp) (by rw [List.length_cons, length_symbolsOf])
  · rw [hcuts.head]
    simp [length_symbolsOf]

end

/-- Whatever the input and the tape, the program counts the characters before the first blank. If
the tape has a blank after them, the run halts on that blank, and accepts exactly if their number is
even. If it has none, the input fills the tape and has no blank, and the run goes off the right end.
The tape is left as it was. -/
theorem evens_tells_parity [Host] : ∃ m, Machine.compile evens (Alphabet.itemsOf evensLetters) = .ok m ∧
    ∀ (contents : String) (size : Int) (k : Nat), (contents.length : Int) + 1 ≤ size →
      size ≤ Host.mostCells → (firstWord contents).length = k →
      ∃ tape, Tape.create contents size = .ok tape ∧
        ((k : Int) + 2 ≤ size → ∃ final, m.run contents size 0 = .ok (final, .halted (k % 2 = 0)) ∧
          final.tape = tape ∧
          Result.ofFinal final (k % 2 = 0) = ⟨tape.contents, k + 1, k % 2 = 0, k + 2⟩) ∧
        (size < (k : Int) + 2 → size = contents.length + 1 ∧ Symbol.blank ∉ symbolsOf contents ∧
          ∃ final cell t, m.run contents size 0 = .ok (final, .failed (.fellOff cell t)) ∧
            final.tape = tape ∧ final.head = size) := by
  obtain ⟨m, hm, houtlines⟩ := exists_evens
  refine ⟨m, hm, ?_⟩
  intro contents size k hfits hmem hk
  obtain ⟨spare, rfl⟩ := exists_spare hfits
  have hsize : contents.length + 1 + spare ≤ Host.mostCells := by exact_mod_cast hmem
  refine ⟨_, Tape.create_eq_ok.mpr ⟨hfits, rfl⟩, ?_⟩
  rcases firstWord_cases contents spare with ⟨rest, hcells⟩ | ⟨hword, rfl⟩
  · have hlength := congrArg List.length hcells
    simp only [List.length_append, List.length_replicate, List.length_cons, length_symbolsOf, hk]
      at hlength
    refine ⟨fun _ => ?_, fun hroom => by omega⟩
    obtain ⟨final, hrun, htape, hhead, hsteps⟩ := run_of_blank houtlines hsize hcells
    rw [hk] at hrun hhead hsteps
    refine ⟨final, hrun, htape, ?_⟩
    rw [Result.ofFinal, htape, hhead, hsteps]
    rfl
  · have hlength := congrArg List.length hword
    rw [length_symbolsOf, hk] at hlength
    refine ⟨fun hroom => by omega, fun _ => ⟨by omega, ?_, ?_⟩⟩
    · rw [hword]
      exact blank_not_mem_firstWord contents
    · exact run_of_full houtlines hsize hword

section

attribute [local instance] Host.usual

/-- Two letters, one of them the wildcard, are told to be even by the blank after them. Without it
the run goes off the tape. -/
theorem evens_tells_parity_two : ∃ m tape,
    Machine.compile evens (Alphabet.itemsOf evensLetters) = .ok m ∧
      (("a*_a".length : Int) + 1 ≤ 5 ∧ (5 : Int) ≤ Host.mostCells ∧
        (firstWord "a*_a").length = 2 ∧ ("a*".length : Int) + 1 ≤ 3 ∧ (firstWord "a*").length = 2) ∧
      Tape.create "a*_a" 5 = .ok tape ∧
      (∃ final, m.run "a*_a" 5 0 = .ok (final, .halted true) ∧
        Result.ofFinal final true = ⟨tape.contents, 3, true, 4⟩) ∧
      ∃ final cell t, m.run "a*" 3 0 = .ok (final, .failed (.fellOff cell t)) ∧
        final.head = 3 := by
  have hinput : ("a*_a".length : Int) + 1 ≤ 5 ∧ (5 : Int) ≤ Host.mostCells ∧
      (firstWord "a*_a").length = 2 ∧ ("a*".length : Int) + 1 ≤ 3 ∧
      (firstWord "a*").length = 2 := by decide
  have ⟨hfits, hmem, hword, hfull, hword'⟩ := hinput
  obtain ⟨m, hm, hruns⟩ := evens_tells_parity
  obtain ⟨tape, htape, hhalts, -⟩ := hruns "a*_a" 5 2 hfits hmem hword
  obtain ⟨final, hrun, -, hresult⟩ := hhalts (by decide)
  obtain ⟨_, -, -, hfalls⟩ := hruns "a*" 3 2 hfull (by decide) hword'
  obtain ⟨-, -, final', cell, t, hrun', -, hhead⟩ := hfalls (by decide)
  exact ⟨m, tape, hm, hinput, htape, ⟨final, hrun, hresult⟩, final', cell, t, hrun', hhead⟩

/-- On a tape that no memory holds there is no result. -/
theorem evens_beyond_memory : ∃ m, Machine.compile evens (Alphabet.itemsOf evensLetters) = .ok m ∧
    ("aa".length : Int) + 1 ≤ 1000000000000000000000000000000 ∧
    ((firstWord "aa").length : Int) + 2 ≤ 1000000000000000000000000000000 ∧
    ∀ r, m.run "aa" 1000000000000000000000000000000 0 ≠ .ok r := by
  obtain ⟨m, hm⟩ := exists_machine evens_valid
  refine ⟨m, hm, by decide, by decide, ?_⟩
  intro r h
  have hbeyond : ("aa".length : Int) < 1000000000000000000000000000000 ∧
      (Host.mostCells : Int) < 1000000000000000000000000000000 := by decide
  rw [Machine.run_of_beyond hbeyond] at h
  cases h

end

end Sample

end TapeMachine
