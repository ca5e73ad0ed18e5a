import TapeMachine.Proofs.Snapshots

/-!
# The sample program that puts blanks between letters

The second sample program works on a block of letters with a blank before it and blanks after it. It
drags the letters of the block to the right by one cell, from the last to the second, and so opens a
gap after the first. The letters after the gap are the next block, until a block is a single letter.
Each round takes one of the blanks after the block. If there are none left, the head goes off the
tape in search of one.

## Main statements

* `Sample.leads_carry` — the last letter of a block is taken over the blank after it
* `Sample.leads_drag` — the inner loop: the letters move one by one, and the gap moves to the left
* `Sample.leads_round` — the outer loop: a gap opens after the first letter of the block
* `Sample.spaces_puts_blanks` — how a run of the program ends, on every word and every tape
* `Sample.spaces_beyond_memory` — not on a tape that no memory holds
-/

namespace TapeMachine

/-- The word with a blank before each symbol. -/
def spaced (word : List Symbol) : List Symbol := word.flatMap fun x => [Symbol.blank, x]

theorem spaced_cons (x : Symbol) (word : List Symbol) :
    spaced (x :: word) = Symbol.blank :: x :: spaced word := rfl

theorem length_spaced (word : List Symbol) : (spaced word).length = 2 * word.length := by
  induction word with
  | nil => rfl
  | cons x word ih =>
    rw [spaced_cons, List.length_cons, List.length_cons, ih, List.length_cons]
    omega

example : spaced ["a", "b"] = ["_", "a", "_", "b"] := rfl

namespace Sample

/-! ## The program by its outlines -/

/-- The states of `spaces`. -/
def spacesOutlines : Outlines := [
  ("S", [("*", "A", "*", .right)]),
  ("A", [("_", "L", "*", .left), ("*", "A", "*", .right)]),
  ("B", [("a", "C", "_", .right), ("b", "F", "_", .right), ("*", "hr", "*", .stay)]),
  ("C", [("*", "D", "a", .left)]),
  ("F", [("*", "D", "b", .left)]),
  ("D", [("*", "G", "*", .left)]),
  ("G", [("*", "H", "*", .left)]),
  ("H", [("_", "I", "*", .right), ("*", "A", "*", .stay)]),
  ("I", [("*", "J", "*", .right)]),
  ("J", [("*", "A", "*", .right)]),
  ("E", [("_", "A", "*", .right), ("*", "E", "*", .left)]),
  ("L", [("*", "M", "*", .left)]),
  ("M", [("_", "ha", "*", .stay), ("*", "B", "*", .right)])]

theorem exists_spaces : ∃ m, Machine.compile spaces (Alphabet.itemsOf spacesLetters) = .ok m ∧
    m.program.outlines = spacesOutlines :=
  exists_machine_outlines spaces_valid (by decide +kernel)

/-- A letter of `spaces`. -/
def IsLetter (x : Symbol) : Prop := x ∈ symbolsOf spacesLetters

theorem IsLetter.cases {x : Symbol} (h : IsLetter x) : x = "a" ∨ x = "b" := by
  simpa [IsLetter, symbolsOf, spacesLetters] using h

theorem IsLetter.ne_blank {x : Symbol} (h : IsLetter x) : x ≠ Symbol.blank := by
  rcases h.cases with rfl | rfl <;> decide

/-! ## A letter is carried to the right -/

section

variable {x y z cell : Symbol} {before after done right rest word : List Symbol}

/-- A letter is taken up, leaving a blank, and put down on the next cell. -/
theorem leads_put (hx : IsLetter x) (cell : Symbol) :
    Snapshot.Leads spacesOutlines 2 ⟨"B", before, x :: cell :: after⟩
      ⟨"D", before, Symbol.blank :: x :: after⟩ := by
  rcases hx.cases with rfl | rfl
  · have hput : Snapshot.next? spacesOutlines ⟨"C", "_" :: before, cell :: after⟩ =
        some ⟨"D", before, "_" :: "a" :: after⟩ := by
      rw [Snapshot.next?, Outlines.action?_any rfl]
      rfl
    exact .next rfl (.next hput (.refl _))
  · have hput : Snapshot.next? spacesOutlines ⟨"F", "_" :: before, cell :: after⟩ =
        some ⟨"D", before, "_" :: "b" :: after⟩ := by
      rw [Snapshot.next?, Outlines.action?_any rfl]
      rfl
    exact .next rfl (.next hput (.refl _))

/-- The last letter of a block of at least two is carried over the blank after it. -/
theorem leads_carry (hx : IsLetter x) (hy : IsLetter y) :
    Snapshot.Leads spacesOutlines 7 ⟨"A", x :: y :: z :: before, Symbol.blank :: after⟩
      ⟨"H", before, z :: y :: Symbol.blank :: x :: after⟩ := by
  have hback : Snapshot.Leads spacesOutlines 2 ⟨"D", y :: z :: before, Symbol.blank :: x :: after⟩
      ⟨"H", before, z :: y :: Symbol.blank :: x :: after⟩ :=
    .left (Outlines.action?_any rfl _) (.left (Outlines.action?_any rfl _) (.refl _))
  have hput : Snapshot.Leads spacesOutlines 4
      ⟨"B", y :: z :: before, x :: Symbol.blank :: after⟩ _ :=
    (leads_put hx Symbol.blank).trans hback
  exact .left (Outlines.action?_one rfl) (.left (Outlines.action?_any rfl _)
    (.right (Outlines.action?_other rfl (by decide) hy.ne_blank) hput))

/-- If a third letter is before it, the head comes back to the blank that is left. -/
theorem leads_drag_one (hx : IsLetter x) (hy : IsLetter y) (hz : IsLetter z) :
    Snapshot.Leads spacesOutlines 10 ⟨"A", x :: y :: z :: before, Symbol.blank :: after⟩
      ⟨"A", y :: z :: before, Symbol.blank :: x :: after⟩ := by
  have hreturn : Snapshot.Leads spacesOutlines 3
      ⟨"H", before, z :: y :: Symbol.blank :: x :: after⟩
      ⟨"A", y :: z :: before, Symbol.blank :: x :: after⟩ :=
    .stay (Outlines.action?_other rfl (by decide) hz.ne_blank)
      (.right (Outlines.action?_other rfl (by decide) hz.ne_blank)
        (.right (Outlines.action?_other rfl (by decide) hy.ne_blank) (.refl _)))
  exact (leads_carry hx hy).trans hreturn

/-- If the blank before the block is before it, the head goes on to the letter that was carried. -/
theorem leads_drag_last (hx : IsLetter x) (hy : IsLetter y) :
    Snapshot.Leads spacesOutlines 10 ⟨"A", x :: y :: Symbol.blank :: done, Symbol.blank :: right⟩
      ⟨"A", Symbol.blank :: y :: Symbol.blank :: done, x :: right⟩ := by
  have hnext : Snapshot.Leads spacesOutlines 3
      ⟨"H", done, Symbol.blank :: y :: Symbol.blank :: x :: right⟩
      ⟨"A", Symbol.blank :: y :: Symbol.blank :: done, x :: right⟩ :=
    .right (Outlines.action?_one rfl) (.right (Outlines.action?_any rfl _)
      (.right (Outlines.action?_any rfl _) (.refl _)))
  exact (leads_carry hx hy).trans hnext

/-! ## A gap opens -/

/-- The letters of a block but the first are dragged one by one, from the last on. -/
theorem leads_drag (hx : IsLetter x) : ∀ {tail right : List Symbol}, tail ≠ [] →
    (∀ y ∈ tail, IsLetter y) →
    Snapshot.Leads spacesOutlines (10 * tail.length)
      ⟨"A", tail ++ x :: Symbol.blank :: done, Symbol.blank :: right⟩
      ⟨"A", Symbol.blank :: x :: Symbol.blank :: done, tail.reverse ++ right⟩
  | [], _, h, _ => absurd rfl h
  | [y], right, _, htail => leads_drag_last (htail y (by simp)) hx
  | y :: z :: tail, right, _, htail => by
    -- what comes before the last two is a letter, if only the first
    obtain ⟨w, ws, hw, hcells⟩ : ∃ w ws, IsLetter w ∧
        tail ++ x :: Symbol.blank :: done = w :: ws := by
      cases tail with
      | nil => exact ⟨x, _, hx, rfl⟩
      | cons w ws => exact ⟨w, _, htail w (by simp), rfl⟩
    have hone : Snapshot.Leads spacesOutlines 10 ⟨"A", y :: z :: w :: ws, Symbol.blank :: right⟩
        ⟨"A", z :: w :: ws, Symbol.blank :: y :: right⟩ :=
      leads_drag_one (htail y (by simp)) (htail z (by simp)) hw
    have hrest : Snapshot.Leads spacesOutlines (10 * (z :: tail).length)
        ⟨"A", z :: tail ++ x :: Symbol.blank :: done, Symbol.blank :: y :: right⟩
        ⟨"A", Symbol.blank :: x :: Symbol.blank :: done, (z :: tail).reverse ++ y :: right⟩ :=
      leads_drag hx (List.cons_ne_nil z tail) fun u hu => htail u (List.mem_cons_of_mem _ hu)
    rw [List.cons_append, hcells] at hrest
    rw [List.cons_append, List.cons_append, hcells, List.length_cons, Nat.mul_succ, Nat.add_comm,
      List.reverse_cons, List.append_assoc]
    exact hone.trans hrest

/-- The head goes over letters to the right. -/
theorem leads_over (hword : ∀ x ∈ word, IsLetter x) :
    Snapshot.Leads spacesOutlines word.length ⟨"A", before, word ++ after⟩
      ⟨"A", word.reverse ++ before, after⟩ := by
  have hscan : ∀ k cell, word[k]? = some cell → spacesOutlines.action? "A" cell =
      some ("A", Symbol.wildcard, .right) := fun k cell hk =>
    Outlines.action?_other rfl (by decide) (hword cell (List.mem_of_getElem? hk)).ne_blank
  exact .scan (q := fun _ => "A") (i := 0) hscan

/-- After a round the first letter has a blank after it, and the others are the block. -/
theorem leads_round (hword : ∀ y ∈ x :: rest, IsLetter y) (hrest : rest ≠ [])
    (done right : List Symbol) :
    ∃ n, Snapshot.Leads spacesOutlines n
      ⟨"A", Symbol.blank :: done, x :: rest ++ Symbol.blank :: right⟩
      ⟨"A", Symbol.blank :: x :: Symbol.blank :: done, rest ++ right⟩ := by
  have hover : Snapshot.Leads spacesOutlines (x :: rest).length
      ⟨"A", Symbol.blank :: done, x :: rest ++ Symbol.blank :: right⟩
      ⟨"A", (x :: rest).reverse ++ Symbol.blank :: done, Symbol.blank :: right⟩ := leads_over hword
  have hdrag : Snapshot.Leads spacesOutlines (10 * rest.reverse.length)
      ⟨"A", rest.reverse ++ x :: Symbol.blank :: done, Symbol.blank :: right⟩
      ⟨"A", Symbol.blank :: x :: Symbol.blank :: done, rest.reverse.reverse ++ right⟩ := by
    refine leads_drag (hword x List.mem_cons_self) (List.reverse_ne_nil_iff.mpr hrest) ?_
    intro y hy
    exact hword y (List.mem_cons_of_mem _ (List.mem_reverse.mp hy))
  rw [List.reverse_cons, List.append_assoc] at hover
  rw [List.reverse_reverse] at hdrag
  exact ⟨_, hover.trans hdrag⟩

/-! ## Runs -/

/-- With as many blanks after the block as it has letters, the program accepts. -/
theorem leads_accept (spare : Nat) : ∀ (rest : List Symbol) (x : Symbol) (done : List Symbol),
    (∀ y ∈ x :: rest, IsLetter y) →
    ∃ n s, Snapshot.Leads spacesOutlines n ⟨"A", Symbol.blank :: done,
        x :: rest ++ List.replicate (rest.length + 1 + spare) Symbol.blank⟩ s ∧
      s.state = acceptName ∧ s.after ≠ [] ∧ s.before.length = done.length + 2 * rest.length ∧
      s.before.reverse ++ s.after =
        done.reverse ++ (spaced (x :: rest) ++ List.replicate (spare + 1) Symbol.blank)
  | [], x, done, hword => by
    -- the second cell to the left of the blank after a single letter is the blank before it
    have hx := (hword x List.mem_cons_self).ne_blank
    refine ⟨4, ⟨"ha", done, Symbol.blank :: x :: List.replicate (spare + 1) Symbol.blank⟩, ?_, rfl,
      nofun, rfl, rfl⟩
    rw [List.length_nil, Nat.zero_add, Nat.add_comm, List.replicate_succ]
    exact .right (Outlines.action?_other rfl (by decide) hx) (.left (Outlines.action?_one rfl)
      (.left (Outlines.action?_any rfl _) (.stay (Outlines.action?_one rfl) (.refl _))))
  | y :: rest, x, done, hword => by
    -- a round leaves one letter fewer and takes one blank
    have hblanks : (y :: rest).length + 1 + spare = rest.length + 1 + spare + 1 := by
      rw [List.length_cons]
      omega
    obtain ⟨n, hround⟩ := leads_round hword (List.cons_ne_nil y rest) done
      (List.replicate (rest.length + 1 + spare) Symbol.blank)
    obtain ⟨n', s, hl, hstate, hafter, hhead, hcells⟩ := leads_accept spare rest y
      (x :: Symbol.blank :: done) fun u hu => hword u (List.mem_cons_of_mem _ hu)
    refine ⟨n + n', s, ?_, hstate, hafter, ?_, ?_⟩
    · rw [hblanks, List.replicate_succ]
      exact hround.trans hl
    · simp only [hhead, List.length_cons]
      omega
    · rw [hcells, spaced_cons x]
      simp

/-- With fewer blanks the head goes off the tape. -/
theorem leads_off : ∀ (k : Nat) (rest : List Symbol) (x : Symbol) (done : List Symbol),
    (∀ y ∈ x :: rest, IsLetter y) → k ≤ rest.length →
    ∃ n s, Snapshot.Leads spacesOutlines n
        ⟨"A", Symbol.blank :: done, x :: rest ++ List.replicate k Symbol.blank⟩ s ∧
      s.after = [] ∧ s.before.length = done.length + 1 + (x :: rest).length + k
  | 0, rest, x, done, hword, _ => by
    -- the block reaches to the end, and the head goes over it
    refine ⟨_, _, leads_over hword, rfl, ?_⟩
    simp only [List.length_append, List.length_reverse, List.length_cons]
    omega
  | k + 1, [], x, done, _, hle => absurd hle (Nat.not_succ_le_zero k)
  | k + 1, y :: rest, x, done, hword, hle => by
    obtain ⟨n, hround⟩ := leads_round hword (List.cons_ne_nil y rest) done
      (List.replicate k Symbol.blank)
    obtain ⟨n', s, hl, hafter, hhead⟩ := leads_off k rest y (x :: Symbol.blank :: done)
      (fun u hu => hword u (List.mem_cons_of_mem _ hu)) (Nat.le_of_succ_le_succ hle)
    refine ⟨n + n', s, hround.trans hl, hafter, ?_⟩
    simp only [hhead, List.length_cons]
    omega

end

section

variable {m : Machine} (hm : m.program.outlines = spacesOutlines) {word : String} {x : Symbol}
  {rest : List Symbol} (hcells : symbolsOf word = x :: rest) (hword : ∀ y ∈ x :: rest, IsLetter y)

include hm hcells hword

/-- With at least as many spare blanks as letters a run accepts. -/
theorem run_of_room [Host] {spare : Nat}
    (hsize : word.length + 1 + (rest.length + 1 + spare) ≤ Host.mostCells) :
    ∃ final, m.run word (word.length + 1 + (rest.length + 1 + spare) : Nat) 0 =
        .ok (final, .halted true) ∧
      final.head = 2 * rest.length ∧
      final.tape =
        Tape.ofCells (spaced (x :: rest)) (word.length + 1 + (rest.length + 1 + spare)) := by
  have hlength := congrArg List.length hcells
  rw [length_symbolsOf, List.length_cons] at hlength
  obtain ⟨n, s, hl, hstate, hafter, hhead, htape⟩ := leads_accept spare rest x [] hword
  rw [← hcells] at hl
  have hfirst : Snapshot.Leads spacesOutlines (n + 1)
      (Snapshot.first word (rest.length + 1 + spare)) s := .right (Outlines.action?_any rfl _) hl
  rw [← hm] at hfirst
  obtain ⟨final, hrun, hcuts, -⟩ :=
    Machine.run_of_leads_halting hsize hfirst (hstate ▸ rfl) hafter
  rw [hstate, decide_eq_true rfl] at hrun
  refine ⟨final, hrun, ?_, ?_⟩
  · rw [hcuts.head, hhead]
    simp
  · refine hcuts.tape (spare + 1) htape ?_
    rw [length_spaced, List.length_cons]
    omega

/-- With fewer spare blanks than letters a run goes off the right end. -/
theorem run_of_short [Host] {spare : Nat} (hspare : spare ≤ rest.length)
    (hsize : word.length + 1 + spare ≤ Host.mostCells) :
    ∃ final cell t, m.run word (word.length + 1 + spare : Nat) 0 =
        .ok (final, .failed (.fellOff cell t)) ∧
      final.head = (word.length + 1 + spare : Nat) := by
  obtain ⟨n, s, hl, hafter, hhead⟩ := leads_off spare rest x [] hword hspare
  rw [← hcells] at hl hhead
  have hfirst : Snapshot.Leads spacesOutlines (n + 1) (Snapshot.first word spare) s :=
    .right (Outlines.action?_any rfl _) hl
  rw [← hm] at hfirst
  obtain ⟨final, cell, t, hrun, hcuts, -⟩ := Machine.run_of_leads_off hsize hfirst hafter
  refine ⟨final, cell, t, hrun, ?_⟩
  rw [hcuts.head, hhead, length_symbolsOf, List.length_nil, Nat.zero_add, Nat.add_comm 1]

end

/-- Whatever word over its letters the program is given, and whatever tape: if the tape has room for
a blank before each letter and one after the word, the run puts them there and accepts, with the
head on the blank before the last letter. If the word fits but there is less room, the run goes off
the right end. -/
theorem spaces_puts_blanks [Host] : ∃ m, Machine.compile spaces (Alphabet.itemsOf spacesLetters) = .ok m ∧
    ∀ (word : String) (size : Int), word ≠ "" →
      (∀ x ∈ symbolsOf word, x ∈ symbolsOf spacesLetters) → size ≤ Host.mostCells →
      (2 * (word.length : Int) + 1 ≤ size → ∃ final,
        m.run word size 0 = .ok (final, .halted true) ∧ final.head = 2 * (word.length : Int) - 2 ∧
        final.tape = Tape.ofCells (spaced (symbolsOf word)) size.toNat) ∧
      ((word.length : Int) + 1 ≤ size → size ≤ 2 * (word.length : Int) → ∃ final cell t,
        m.run word size 0 = .ok (final, .failed (.fellOff cell t)) ∧ final.head = size) := by
  obtain ⟨m, hm, houtlines⟩ := exists_spaces
  refine ⟨m, hm, ?_⟩
  intro word size hne hword hmem
  obtain ⟨x, rest, hcells⟩ : ∃ x rest, symbolsOf word = x :: rest := by
    refine List.exists_cons_of_ne_nil ?_
    simpa [symbolsOf] using hne
  have hlength := congrArg List.length hcells
  rw [length_symbolsOf, List.length_cons] at hlength
  rw [hcells] at hword ⊢
  refine ⟨fun hroom => ?_, fun hfits hshort => ?_⟩
  · obtain ⟨more, rfl⟩ := exists_spare (by omega : (word.length : Int) + 1 ≤ size)
    obtain ⟨spare, rfl⟩ := Nat.exists_eq_add_of_le (by omega : rest.length + 1 ≤ more)
    obtain ⟨final, hrun, hhead, htape⟩ :=
      run_of_room houtlines hcells hword (by exact_mod_cast hmem)
    exact ⟨final, hrun, by omega, htape⟩
  · obtain ⟨spare, rfl⟩ := exists_spare hfits
    exact run_of_short houtlines hcells hword (by omega) (by exact_mod_cast hmem)

section

attribute [local instance] Host.usual

/-- Three letters have room in seven cells, and not in six. -/
theorem spaces_puts_blanks_three : ∃ m,
    Machine.compile spaces (Alphabet.itemsOf spacesLetters) = .ok m ∧
      ("aba" ≠ "" ∧ (∀ x ∈ symbolsOf "aba", x ∈ symbolsOf spacesLetters) ∧
        (7 : Int) ≤ Host.mostCells ∧ 2 * ("aba".length : Int) + 1 ≤ 7 ∧
        ("aba".length : Int) + 1 ≤ 6 ∧ (6 : Int) ≤ 2 * ("aba".length : Int)) ∧
      (∃ final, m.run "aba" 7 0 = .ok (final, .halted true) ∧ final.head = 4 ∧
        final.tape = #["_", "a", "_", "b", "_", "a", "_"]) ∧
      ∃ final cell t, m.run "aba" 6 0 = .ok (final, .failed (.fellOff cell t)) ∧
        final.head = 6 := by
  have hinput : "aba" ≠ "" ∧ (∀ x ∈ symbolsOf "aba", x ∈ symbolsOf spacesLetters) ∧
      (7 : Int) ≤ Host.mostCells ∧ 2 * ("aba".length : Int) + 1 ≤ 7 ∧
      ("aba".length : Int) + 1 ≤ 6 ∧ (6 : Int) ≤ 2 * ("aba".length : Int) := by decide
  have ⟨hne, hletters, hmem, hroom, hfits, hshort⟩ := hinput
  obtain ⟨m, hm, hruns⟩ := spaces_puts_blanks
  obtain ⟨final, hrun, hhead, htape⟩ := (hruns "aba" 7 hne hletters hmem).1 hroom
  refine ⟨m, hm, hinput, ⟨final, hrun, by rw [hhead]; decide, by rw [htape]; decide⟩, ?_⟩
  exact (hruns "aba" 6 hne hletters (by decide)).2 hfits hshort

/-- On a tape that no memory holds there is no result. -/
theorem spaces_beyond_memory : ∃ m,
    Machine.compile spaces (Alphabet.itemsOf spacesLetters) = .ok m ∧
      2 * ("a".length : Int) + 1 ≤ 1000000000000000000000000000000 ∧
      ∀ r, m.run "a" 1000000000000000000000000000000 0 ≠ .ok r := by
  obtain ⟨m, hm⟩ := exists_machine spaces_valid
  refine ⟨m, hm, by decide, ?_⟩
  intro r h
  have hbeyond : ("a".length : Int) < 1000000000000000000000000000000 ∧
      (Host.mostCells : Int) < 1000000000000000000000000000000 := by decide
  rw [Machine.run_of_beyond hbeyond] at h
  cases h

end

end Sample

end TapeMachine
