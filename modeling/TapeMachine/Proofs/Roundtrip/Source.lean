import TapeMachine.Proofs.Roundtrip.Dump

/-!
# The source of a program reads back

Whatever text a program was read from, valid or not, its source has the rules of each state
together, a rule a line, in the order of the states. It reads as the same states with the same
rules, each on the line on which the source has it, and so has the same source.

## Main statements

* `Program.source_eq_of_outlines` — the source tells nothing of lines
* `Program.source_reads_back` — the source of a program that was read reads as the program
-/

namespace TapeMachine

namespace Program

variable {p q : Program}

/-- Programs with the same outlines have the same source. -/
theorem source_eq_of_outlines (h : q.states.map State.outline = p.states.map State.outline) :
    q.source = p.source := by
  unfold source
  rw [State.map_eq_of_outlines State.source_eq_of_outline h]

/-- The source of a program that was read has a rule a line, state by state. It reads as a program
with the same states in the same order, each with the same triggers, next states, writes and
movements in the same order. Each rule is now on the line on which the source has it, and the source
is the same again. -/
theorem source_reads_back {text : String} (h : read text = .ok p) :
    Text.lines p.source = p.rules.map Rule.text ++ [""] ∧
    ∃ q, read p.source = .ok q ∧
      q.states.map State.outline = p.states.map State.outline ∧
      (∀ k : Nat, q.rules[k]? = p.rules[k]?.map fun r => r.onLine (k + 1)) ∧
      q.source = p.source := by
  have hp : Printable (p.states.flatMap State.ruleList) := printable_of_read h
  obtain ⟨q, hread, hout, hrules⟩ := read_sources p.nodup p.rules_ne_nil hp
  refine ⟨lines_sources hp, q, hread, hout, ?_, source_eq_of_outlines hout⟩
  intro k
  rw [hrules, getElem?_onLines, Int.add_comm 1 k]
  rfl

/-- Rules of two states in turns, with both characters of the arrow in their fields. -/
def scattered : String :=
  "S,* -> > x  -,-,r\n" ++
  "\n" ++
  "> x  -,- -> S,>,l\n" ++
  " S\t,> ->> x  -,*,s\n" ++
  "> x  -,* -> nowhere,-,s\n"

/-- The second rule of the source was on the fourth line, and is now on the second. -/
theorem source_reads_back_scattered : ∃ p q,
    read scattered = .ok p ∧
      p.source = "S, * -> > x  -, -, r\nS, > -> > x  -, *, s\n" ++
        "> x  -, - -> S, >, l\n> x  -, * -> nowhere, -, s\n" ∧
      p.rules[1]? = some ⟨"S", ">", "> x  -", "*", .stay, 4⟩ ∧
      read p.source = .ok q ∧ q.source = p.source ∧
      q.rules[1]? = some ⟨"S", ">", "> x  -", "*", .stay, 2⟩ := by
  have htest : (read scattered).toOption.map (fun p => (p.source, p.rules[1]?)) =
      some ("S, * -> > x  -, -, r\nS, > -> > x  -, *, s\n" ++
        "> x  -, - -> S, >, l\n> x  -, * -> nowhere, -, s\n",
        some ⟨"S", ">", "> x  -", "*", .stay, 4⟩) := by decide +kernel
  cases hp : read scattered with
  | error e =>
    rw [hp] at htest
    cases htest
  | ok p =>
    rw [hp] at htest
    obtain ⟨hsource, hrule⟩ := Prod.mk.inj (Option.some.inj htest)
    obtain ⟨-, q, hread, -, hlines, hsame⟩ := source_reads_back hp
    refine ⟨p, q, rfl, hsource, hrule, hread, hsame, ?_⟩
    rw [hlines 1, hrule]
    rfl

end Program

end TapeMachine
