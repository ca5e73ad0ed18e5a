import TapeMachine.Proofs.Descriptions
import TapeMachine.Proofs.Finality

/-!
# What is shown of a tape

A tape is shown up to the head, or up to its last cell that is not blank if that stands farther right.
One scan finds out where to stop. It starts under the head, or as near to it as the tape has cells, and
remembers the last place where it saw a cell that is not blank; so what stands left of the head is never
looked at.

## Main statements

* `Tape.scan_cases` — what a scan has seen, wherever it started
* `Tape.shown_eq_take` — the cells worth showing are those up to where the scan stops
* `Tape.LastInk.lastShown_eq` — that is the last cell that is not blank, or the head
* `Tape.exists_report_eq` — what is told of a step that failed begins with the shown tape
* `Tape.render_shows_significant` — which heads can be shown, and what is shown with them
-/

namespace TapeMachine

namespace Tape

variable {cells : List Symbol} {head : Int}

/-! ## The scan -/

/-- The last position with a cell that is not blank, going through cells the first of which stands at
a position; what was remembered before, if all are blank. -/
def scan (last : Nat) : Nat → List Symbol → Nat
  | _, [] => last
  | i, cell :: rest => scan (if cell = Symbol.blank then last else i) (i + 1) rest

/-- The last position that is shown: the scan starts under the head, or at the end of the tape that is
nearer. -/
def lastShown (cells : List Symbol) (head : Int) : Nat :=
  let first := (min head cells.length).toNat
  scan first first (cells.drop first)

/-- A cell that is not blank at a position, and only blanks after it. -/
structure InkEndsAt (cells : List Symbol) (k : Nat) : Prop where
  ink : ∃ cell, cells[k]? = some cell ∧ cell ≠ Symbol.blank
  rest : ∀ cell ∈ cells.drop (k + 1), cell = Symbol.blank

theorem InkEndsAt.cons {k : Nat} (h : InkEndsAt cells k) (cell : Symbol) :
    InkEndsAt (cell :: cells) (k + 1) := ⟨h.ink, h.rest⟩

theorem inkEndsAt_drop {j k : Nat} : InkEndsAt (cells.drop j) k ↔ InkEndsAt cells (j + k) := by
  have hink : (cells.drop j)[k]? = cells[j + k]? := List.getElem?_drop
  have hrest : (cells.drop j).drop (k + 1) = cells.drop (j + k + 1) := List.drop_drop
  constructor
  · rintro ⟨hi, hr⟩
    exact ⟨hink ▸ hi, hrest ▸ hr⟩
  · rintro ⟨hi, hr⟩
    exact ⟨hink ▸ hi, hrest ▸ hr⟩

/-- A scan sees blanks only and remembers what it did, or it stops at the last cell that is not
blank. -/
theorem scan_cases (last i : Nat) (cells : List Symbol) :
    (∀ cell ∈ cells, cell = Symbol.blank) ∧ scan last i cells = last ∨
      ∃ k, InkEndsAt cells k ∧ scan last i cells = i + k := by
  induction cells generalizing last i with
  | nil => exact Or.inl ⟨nofun, rfl⟩
  | cons cell rest ih =>
    rw [scan]
    rcases ih (if cell = Symbol.blank then last else i) (i + 1) with ⟨hall, hs⟩ | ⟨k, hk, hs⟩
    · by_cases hc : cell = Symbol.blank
      · left
        rw [hs, if_pos hc]
        exact ⟨List.forall_mem_cons.mpr ⟨hc, hall⟩, rfl⟩
      · right
        rw [hs, if_neg hc]
        exact ⟨0, ⟨⟨cell, rfl, hc⟩, hall⟩, rfl⟩
    · right
      exact ⟨k + 1, hk.cons cell, by rw [hs]; omega⟩

/-! ## The cells worth showing -/

theorem dropBlanks_of_blank (h : ∀ cell ∈ cells, cell = Symbol.blank) : dropBlanks cells = [] := by
  have hblanks := dropBlanks_append_blanks [] cells.length
  rw [List.nil_append, ← List.eq_replicate_of_mem h] at hblanks
  exact hblanks

theorem dropBlanks_of_last {cell : Symbol} (h : cells.getLast? = some cell) (hc : cell ≠ Symbol.blank) :
    dropBlanks cells = cells := by
  obtain ⟨front, rfl⟩ := List.getLast?_eq_some_iff.mp h
  unfold dropBlanks
  rw [List.reverse_append, List.reverse_singleton, List.singleton_append,
    List.dropWhile_cons_of_neg (by simpa using hc), List.reverse_cons, List.reverse_reverse]

/-- Without the blanks at the end the cells up to the last that is not blank are left. -/
theorem InkEndsAt.dropBlanks_eq {k : Nat} (h : InkEndsAt cells k) :
    dropBlanks cells = cells.take (k + 1) := by
  obtain ⟨cell, hk, hc⟩ := h.ink
  have hlast : (cells.take (k + 1)).getLast? = some cell := by
    rw [List.getLast?_take, if_neg (Nat.succ_ne_zero k), Nat.add_sub_cancel, hk]
    rfl
  calc dropBlanks cells
      = dropBlanks (cells.take (k + 1) ++
          List.replicate (cells.drop (k + 1)).length Symbol.blank) := by
        rw [← List.eq_replicate_of_mem h.rest, List.take_append_drop]
    _ = cells.take (k + 1) := by
        rw [dropBlanks_append_blanks, dropBlanks_of_last hlast hc]

/-- The cells worth showing are those up to where the scan stops. -/
theorem shown_eq_take (cells : List Symbol) (head : Int) :
    shown cells head = cells.take (lastShown cells head + 1) := by
  unfold shown lastShown
  simp only
  by_cases hend : (cells.length : Int) ≤ head
  · -- nothing is left to scan, and all is shown
    rw [min_eq_right hend, Int.toNat_natCast, List.drop_length, scan,
      List.take_of_length_le (by omega), List.take_of_length_le (by omega),
      List.drop_of_length_le (by omega)]
    exact List.append_nil cells
  · rw [min_eq_left (by omega)]
    rcases scan_cases head.toNat head.toNat (cells.drop head.toNat) with ⟨hall, hs⟩ | ⟨k, hk, hs⟩
    · have hrest : ∀ cell ∈ cells.drop (head.toNat + 1), cell = Symbol.blank := by
        intro cell hm
        rw [← List.drop_drop] at hm
        exact hall cell (List.mem_of_mem_drop hm)
      rw [hs, dropBlanks_of_blank hrest, List.append_nil]
    · rw [hs]
      rw [inkEndsAt_drop] at hk
      cases k with
      | zero => rw [dropBlanks_of_blank hk.rest, List.append_nil, Nat.add_zero]
      | succ k =>
        have hafter : InkEndsAt (cells.drop (head.toNat + 1)) k :=
          inkEndsAt_drop.mpr (by rwa [Nat.add_assoc, Nat.add_comm 1 k])
        rw [hafter.dropBlanks_eq, ← List.take_add]
        congr 1
        omega

/-! ## The last cell that is not blank -/

/-- The position of the last cell that is not blank, or -1 if all are blank. -/
structure LastInk (cells : List Symbol) (p : Int) : Prop where
  ink : p = -1 ∨ ∃ i cell, p = (i : Nat) ∧ cells[i]? = some cell ∧ cell ≠ Symbol.blank
  rest : ∀ (i : Nat) cell, p < i → cells[i]? = some cell → cell = Symbol.blank

theorem LastInk.unique {p q : Int} (hp : LastInk cells p) (hq : LastInk cells q) : p = q := by
  -- a cell that is not blank is not behind the last one
  have hle : ∀ {p q : Int}, LastInk cells p → LastInk cells q → p ≤ q := by
    intro p q hp hq
    by_contra hlt
    rcases hp.ink with rfl | ⟨i, cell, rfl, hi, hc⟩
    · rcases hq.ink with rfl | ⟨j, -, rfl, -, -⟩ <;> omega
    · exact hc (hq.rest i cell (by omega) hi)
  exact Int.le_antisymm (hle hp hq) (hle hq hp)

theorem lastInk_of_blank (h : ∀ cell ∈ cells, cell = Symbol.blank) : LastInk cells (-1) :=
  ⟨Or.inl rfl, fun _ cell _ hi => h cell (List.mem_of_getElem? hi)⟩

theorem InkEndsAt.lastInk {k : Nat} (h : InkEndsAt cells k) : LastInk cells k := by
  obtain ⟨cell, hk, hc⟩ := h.ink
  refine ⟨Or.inr ⟨k, cell, rfl, hk, hc⟩, fun i cell hlt hi => ?_⟩
  refine h.rest cell (List.mem_iff_getElem?.mpr ⟨i - (k + 1), ?_⟩)
  rw [List.getElem?_drop, Nat.add_sub_cancel' (by omega), hi]

theorem exists_lastInk (cells : List Symbol) : ∃ p, LastInk cells p := by
  rcases scan_cases 0 0 cells with ⟨hall, -⟩ | ⟨k, hk, -⟩
  · exact ⟨-1, lastInk_of_blank hall⟩
  · exact ⟨k, hk.lastInk⟩

/-- The scan stops at the last cell that is not blank, or where it started if that is not farther
left. -/
theorem LastInk.lastShown_eq {p : Int} (h : LastInk cells p) (head : Int) :
    (lastShown cells head : Int) = max p (max (min head cells.length) 0) := by
  unfold lastShown
  simp only
  rw [← Int.toNat_eq_max]
  generalize (min head cells.length).toNat = first
  rcases scan_cases first first (cells.drop first) with ⟨hall, hs⟩ | ⟨k, hk, hs⟩
  · rw [hs]
    have hle : p ≤ first := by
      rcases h.ink with rfl | ⟨i, cell, rfl, hi, hc⟩
      · omega
      · by_contra hlt
        refine hc (hall cell (List.mem_iff_getElem?.mpr ⟨i - first, ?_⟩))
        rw [List.getElem?_drop, Nat.add_sub_cancel' (by omega), hi]
    omega
  · rw [hs, h.unique (inkEndsAt_drop.mp hk).lastInk]
    omega

/-- What is shown are the cells up to the last that is not blank and up to the head. -/
theorem LastInk.shown_eq {p : Int} (h : LastInk cells p) (head : Int) :
    shown cells head = cells.take ((max p (max head 0)).toNat + 1) := by
  have hlast := h.lastShown_eq head
  rw [shown_eq_take]
  rcases Int.le_total head cells.length with hle | hle
  · rw [min_eq_left hle] at hlast
    rw [← hlast, Int.toNat_natCast]
  · -- a head beyond the end shows the whole tape, as one at the end does
    rw [min_eq_right hle] at hlast
    rw [List.take_of_length_le (by omega), List.take_of_length_le (by omega)]

/-! ## The shown text -/

/-- The tape as the user sees it, if the head can be shown. -/
def tryRender [Host] (cells : List Symbol) (head : Int) : Except MarkFault String :=
  match markFault? head with
  | some e => .error e
  | none => .ok (render cells head)

theorem exists_message_eq (c : Configuration) {fault : Fault} (h : ∀ name, fault ≠ .missingState name) :
    ∃ rest, fault.message c = c.render ++ rest := by
  cases fault with
  | outside => exact ⟨_, rfl⟩
  | noTransition cell =>
    refine ⟨"\nNo transition in " ++ (c.state.name ++ (" for " ++ cell)), ?_⟩
    simp only [Fault.message, String.append_assoc]
  | fellOff cell t =>
    refine ⟨"\n" ++ (c.state.ruleText cell t ++ "\nWent out of bounds."), ?_⟩
    simp only [Fault.message, String.append_assoc]
  | missingState name => exact absurd rfl (h name)

/-- What is told of a step that failed is the tape and more, if the head can be shown. -/
theorem exists_report_eq [Host] (c : Configuration) {fault : Fault} (h : ∀ name, fault ≠ .missingState name) :
    ∃ rest, fault.report c = (tryRender c.tape.toList c.head).map (· ++ rest) := by
  obtain ⟨rest, hrest⟩ := exists_message_eq c h
  refine ⟨rest, ?_⟩
  rw [Machine.report_of_markFault? h, hrest, tryRender]
  cases markFault? c.head <;> rfl

/-- A head can be shown up to a farthest position on either side. -/
theorem markFault?_eq_none [Host] : markFault? head = none ↔
    -(Nat.pow 10 Text.maxDigits : Nat) < head ∧ head ≤ Host.mostBlanks := by
  have hfar := Host.mostBlanks_lt
  unfold markFault?
  split
  · simp only [reduceCtorEq, false_iff]
    omega
  · split
    · simp only [reduceCtorEq, false_iff]
      omega
    · split
      · simp only [reduceCtorEq, false_iff]
        omega
      · simp only [true_iff]
        omega

/-- A tape is shown exactly if the head is not too far out on either side. What is shown are the cells
up to the last that is not blank and up to the head, all of them if the head is beyond the end; and on a
line of its own, after as many blanks as there are cells left of the head, a mark and the head in decimal
digits. -/
theorem render_shows_significant [Host] (cells : List Symbol) (head : Int) (text : String) :
    tryRender cells head = .ok text ↔
      (-(Nat.pow 10 Text.maxDigits : Nat) < head ∧ head ≤ Host.mostBlanks) ∧
      ∃ p, LastInk cells p ∧ text = String.join (cells.take ((max p (max head 0)).toNat + 1)) ++ "\n" ++
        (String.ofList (List.replicate (max head 0).toNat ' ') ++ "^ [" ++ Int.repr head ++ "]") := by
  obtain ⟨p, hp⟩ := exists_lastInk cells
  have hrender : render cells head = String.join (cells.take ((max p (max head 0)).toNat + 1)) ++ "\n" ++
      (String.ofList (List.replicate (max head 0).toNat ' ') ++ "^ [" ++ Int.repr head ++ "]") := by
    have hblanks : (max head 0).toNat = head.toNat := by omega
    have hmarker : marker head =
        String.ofList (List.replicate head.toNat ' ') ++ ("^ [" ++ Int.repr head ++ "]") := rfl
    rw [render, hp.shown_eq, hmarker, hblanks]
    simp only [String.append_assoc]
  rw [← markFault?_eq_none, tryRender]
  constructor
  · intro h
    split at h
    · cases h
    · next hm =>
      cases h
      exact ⟨hm, p, hp, hrender⟩
  · rintro ⟨hm, q, hq, rfl⟩
    rw [hm]
    simp only [Except.ok.injEq]
    rw [hrender, hq.unique hp]

section

attribute [local instance] Host.usual

/-- A head farther out than any text is long is not shown, whatever is on the tape. -/
theorem head_beyond_text : LastInk ["a", Symbol.blank] 0 ∧
    ∀ text, tryRender ["a", Symbol.blank] 9223372036854775808 ≠ .ok text := by
  have hmark : markFault? 9223372036854775808 = some .beyondText := by decide +kernel
  refine ⟨InkEndsAt.lastInk ⟨⟨"a", rfl, by decide⟩, by simp⟩, fun text h => ?_⟩
  rw [tryRender, hmark] at h
  cases h

end

end Tape

end TapeMachine
