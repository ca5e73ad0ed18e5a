import Mathlib.Data.List.TakeWhile
import TapeMachine.Proofs.Lines
import TapeMachine.Proofs.SpareTape

/-!
# What a description tells

The description of a result shows the tape without the blanks at its end, the head under it, and the
verdict. If the head is on the tape, nothing else is lost. The cells may hold anything, line ends and
brackets too, so the description is read from its end: the last brackets are around the head, the
verdict is behind them, and the length of the marker is known from the head.

## Main statements

* `Tape.shown_append_replicate` — only blanks at the end are not shown
* `Tape.shown_congr` — tapes that differ in blanks at the end are shown alike
* `Result.OnTape.of_describe_eq` — head, verdict and shown tape are read off a description
* `Result.describe_tells_apart` — which results have the same description
-/

namespace TapeMachine

/-! ## What is shown of a tape -/

namespace Tape

variable {cells cells' : List Symbol} {head : Int}

/-- A tape is what is left without the blanks at its end, and blanks. -/
theorem exists_append_blanks (cells : List Symbol) :
    ∃ n, cells = dropBlanks cells ++ List.replicate n Symbol.blank := by
  let blanks := cells.reverse.takeWhile (· == Symbol.blank)
  have hall : blanks = List.replicate blanks.length Symbol.blank :=
    List.eq_replicate_of_mem fun x hx => by simpa using List.mem_takeWhile_imp hx
  refine ⟨blanks.length, ?_⟩
  calc cells = (blanks ++ cells.reverse.dropWhile (· == Symbol.blank)).reverse := by
        rw [List.takeWhile_append_dropWhile, List.reverse_reverse]
    _ = dropBlanks cells ++ List.replicate blanks.length Symbol.blank := by
        rw [List.reverse_append, hall, List.reverse_replicate, List.length_replicate]
        rfl

/-- All that is not shown of a tape is blanks at its end. -/
theorem shown_append_replicate (cells : List Symbol) (head : Int) :
    ∃ n, cells = shown cells head ++ List.replicate n Symbol.blank := by
  obtain ⟨n, hn⟩ := exists_append_blanks (cells.drop (head.toNat + 1))
  refine ⟨n, ?_⟩
  calc cells = cells.take (head.toNat + 1) ++ cells.drop (head.toNat + 1) :=
        (List.take_append_drop _ _).symm
    _ = shown cells head ++ List.replicate n Symbol.blank := by
        conv_lhs => rw [hn]
        rw [← List.append_assoc]
        rfl

theorem dropBlanks_shown (cells : List Symbol) (head : Int) :
    dropBlanks (shown cells head) = dropBlanks cells := by
  obtain ⟨n, hn⟩ := shown_append_replicate cells head
  conv_rhs => rw [hn]
  rw [dropBlanks_append_blanks]

theorem mem_of_mem_shown {x : Symbol} (h : x ∈ shown cells head) : x ∈ cells := by
  obtain ⟨n, hn⟩ := shown_append_replicate cells head
  rw [hn]
  exact List.mem_append_left _ h

/-- Tapes that differ in blanks at the end are shown alike, if the head is on both. -/
theorem shown_congr (h : head.toNat < cells.length) (h' : head.toNat < cells'.length)
    (hdrop : dropBlanks cells = dropBlanks cells') : shown cells head = shown cells' head := by
  obtain ⟨n, hn⟩ := exists_append_blanks cells
  obtain ⟨n', hn'⟩ := exists_append_blanks cells'
  rw [hdrop] at hn
  -- the shorter tape, with blanks after it, is the longer one
  rcases Nat.le_total n n' with hle | hle
  · have hlonger : cells' = cells ++ List.replicate (n' - n) Symbol.blank := by
      conv_rhs => rw [hn]
      rw [List.append_assoc, List.replicate_append_replicate, Nat.add_sub_cancel' hle, ← hn']
    rw [hlonger, shown_append_blanks _ h]
  · have hlonger : cells = cells' ++ List.replicate (n - n') Symbol.blank := by
      conv_rhs => rw [hn']
      rw [List.append_assoc, List.replicate_append_replicate, Nat.add_sub_cancel' hle, ← hn]
    rw [hlonger, shown_append_blanks _ h']

theorem lt_length_shown (h : head.toNat < cells.length) : head.toNat < (shown cells head).length := by
  rw [shown, List.length_append, List.length_take]
  omega

/-- The cell under the head is shown in its place. -/
theorem getElem?_shown (h : head.toNat < cells.length) :
    (shown cells head)[head.toNat]? = cells[head.toNat]? := by
  obtain ⟨n, hn⟩ := shown_append_replicate cells head
  conv_rhs => rw [hn]
  rw [List.getElem?_append_left (lt_length_shown h)]

end Tape

/-! ## Descriptions -/

/-- Texts that are equal are cut alike at the last place of a character. -/
theorem append_cons_inj_of_not_mem {α : Type} {front front' back back' : List α} {a : α}
    (h : front ++ a :: back = front' ++ a :: back') (hb : a ∉ back) (hb' : a ∉ back') :
    front = front' ∧ back = back' := by
  rcases List.append_eq_append_iff.mp h with ⟨between, hfront, hback⟩ | ⟨between, hfront, hback⟩
  · cases between with
    | nil => exact ⟨by rw [hfront, List.append_nil], (List.cons.inj hback).2⟩
    | cons b between =>
      rw [List.cons_append, List.cons.injEq] at hback
      exact absurd (hback.2 ▸ List.mem_append_right _ List.mem_cons_self) hb
  · cases between with
    | nil => exact ⟨by rw [hfront, List.append_nil], (List.cons.inj hback).2.symm⟩
    | cons b between =>
      rw [List.cons_append, List.cons.injEq] at hback
      exact absurd (hback.2 ▸ List.mem_append_right _ List.mem_cons_self) hb'

namespace Result

variable {r r' : Result}

/-- The head is on the tape. -/
structure OnTape (r : Result) : Prop where
  nonneg : 0 ≤ r.head
  lt : r.head < r.tape.length

/-- The text of the tape with which the description begins. -/
def tapeText (r : Result) : String := String.join (Tape.shown (symbolsOf r.tape) r.head)

theorem OnTape.toNat_lt (h : r.OnTape) : r.head.toNat < (symbolsOf r.tape).length := by
  obtain ⟨h₀, hlt⟩ := h
  rw [length_symbolsOf]
  omega

theorem symbolsOf_tapeText (r : Result) :
    symbolsOf r.tapeText = Tape.shown (symbolsOf r.tape) r.head :=
  symbolsOf_join fun _ hx => length_of_mem_symbolsOf (Tape.mem_of_mem_shown hx)

/-- The description, cut at the brackets around the head. -/
theorem toList_describe (r : Result) : r.describe.toList =
    (r.tapeText.toList ++ '\n' :: (List.replicate r.head.toNat ' ' ++ ['^', ' '])) ++
      '[' :: ((Int.repr r.head).toList ++ ']' :: '\n' :: r.verdict.toList) := by
  have hmarker : (Tape.marker r.head).toList = List.replicate r.head.toNat ' ' ++
      ['^', ' ', '['] ++ (Int.repr r.head).toList ++ [']'] := by
    show (String.ofList _ ++ ("^ [" ++ Int.repr r.head ++ "]")).toList = _
    simp only [String.toList_append, String.toList_ofList, List.append_assoc]
    rfl
  rw [describe_eq, ← tapeText]
  simp only [String.toList_append, hmarker, List.append_assoc, List.cons_append, List.nil_append]
  rfl

theorem verdict_inj : r.verdict = r'.verdict ↔ r.accepted = r'.accepted := by
  unfold verdict
  cases r.accepted <;> cases r'.accepted <;> decide

/-- No verdict has a bracket in it. -/
theorem bracket_not_mem_verdict (r : Result) :
    '[' ∉ r.verdict.toList ∧ ']' ∉ r.verdict.toList := by
  unfold verdict
  cases r.accepted <;> decide

/-- Heads that are not negative are told apart by their digits. -/
theorem OnTape.head_inj (hr : r.OnTape) (hr' : r'.OnTape) (h : Int.repr r.head = Int.repr r'.head) :
    r.head = r'.head := by
  obtain ⟨n, hn⟩ := Int.eq_ofNat_of_zero_le hr.nonneg
  obtain ⟨n', hn'⟩ := Int.eq_ofNat_of_zero_le hr'.nonneg
  rw [hn, hn'] at h ⊢
  have hdigits : Nat.toDigits 10 n = Nat.toDigits 10 n' := String.ofList_injective h
  have hvalue : ∀ k, Nat.ofDigitChars 10 (Nat.toDigits 10 k) 0 = k := fun k =>
    Nat.ofDigitChars_toDigits (by decide) (by decide)
  rw [← hvalue n, hdigits, hvalue]

/-- Head, verdict and shown tape are read off the end of the description. -/
theorem OnTape.of_describe_eq (hr : r.OnTape) (hr' : r'.OnTape) (h : r.describe = r'.describe) :
    r.head = r'.head ∧ r.accepted = r'.accepted ∧ r.tapeText = r'.tapeText := by
  have hrepr : ∀ {c : Char} (n : Int), ¬(c = '-' ∨ c.isDigit = true) → c ∉ (Int.repr n).toList :=
    fun _ hc hm => hc (of_mem_intRepr hm)
  have hopen : ∀ s : Result,
      '[' ∉ (Int.repr s.head).toList ++ ']' :: '\n' :: s.verdict.toList := by
    intro s
    simp only [List.mem_append, List.mem_cons, not_or]
    exact ⟨hrepr _ (by decide), by decide, by decide, s.bracket_not_mem_verdict.1⟩
  have hclose : ∀ s : Result, ']' ∉ '\n' :: s.verdict.toList := by
    intro s
    simp only [List.mem_cons, not_or]
    exact ⟨by decide, s.bracket_not_mem_verdict.2⟩
  rw [← String.toList_inj, toList_describe, toList_describe] at h
  obtain ⟨hfront, hback⟩ := append_cons_inj_of_not_mem h (hopen r) (hopen r')
  obtain ⟨hdigits, hverdict⟩ := append_cons_inj_of_not_mem hback (hclose r) (hclose r')
  have hhead : r.head = r'.head := hr.head_inj hr' (String.toList_inj.mp hdigits)
  refine ⟨hhead, verdict_inj.mp (String.toList_inj.mp (List.cons.inj hverdict).2), ?_⟩
  rw [hhead] at hfront
  exact String.toList_inj.mp (List.append_cancel_right hfront)

/-- The character of the shown tape in the place of the head is the cell under the head. -/
theorem OnTape.under_head (h : r.OnTape) : r.head.toNat < r.tapeText.length ∧
    r.tapeText.toList[r.head.toNat]? = r.tape.toList[r.head.toNat]? := by
  have hsingle : Function.Injective String.singleton := fun _ _ hc => String.singleton_inj.mp hc
  constructor
  · rw [← length_symbolsOf, symbolsOf_tapeText]
    exact Tape.lt_length_shown h.toNat_lt
  · refine Option.map_injective hsingle ?_
    rw [← List.getElem?_map, ← List.getElem?_map]
    show (symbolsOf r.tapeText)[r.head.toNat]? = (symbolsOf r.tape)[r.head.toNat]?
    rw [symbolsOf_tapeText, Tape.getElem?_shown h.toNat_lt]

/-- The result of a run that has just halted has its head on the tape. -/
theorem onTape_ofFinal {p : Program} {c c' : Configuration} {accepted : Bool}
    (h : step p c = (c', .halted accepted)) (hcells : ∀ cell ∈ c'.tape, cell.length = 1) :
    (ofFinal c' accepted).OnTape := by
  have hon : c'.inBounds = true := by
    cases hc : c.choose with
    | error fault =>
      rw [step_of_choose_error hc] at h
      cases h
    | ok chosen =>
      rw [step_of_choose_ok hc] at h
      rcases follow_cases p chosen.1 chosen.2 c with
        ⟨-, he⟩ | ⟨hi, -, he⟩ | ⟨-, -, -, he⟩ | ⟨-, -, s, -, he⟩
      all_goals rw [he] at h; cases h
      exact hi
  have hlength : c'.tape.contents.length = c'.tape.size := by
    rw [← length_symbolsOf, Tape.symbolsOf_contents hcells, Array.length_toList]
  obtain ⟨h₀, hlt⟩ := Configuration.inBounds_iff.mp hon
  refine ⟨h₀, ?_⟩
  show c'.head < c'.tape.contents.length
  rw [hlength]
  exact hlt

/-- The description of a result with its head on the tape loses nothing but the blanks at the end of the
tape. Two such results have the same description exactly if they have the same verdict, the same head
and the same tape without those blanks. The description begins with the text of the tape, which goes
past the head and shows the cell under it. The result of every step that halts is such a result. -/
theorem describe_tells_apart :
    (∀ r r' : Result, r.OnTape → r'.OnTape →
      (r.describe = r'.describe ↔ r.accepted = r'.accepted ∧ r.head = r'.head ∧
        Tape.dropBlanks (symbolsOf r.tape) = Tape.dropBlanks (symbolsOf r'.tape))) ∧
    (∀ r : Result, r.OnTape →
      r.describe = r.tapeText ++ "\n" ++ Tape.marker r.head ++ "\n" ++ r.verdict ∧
      r.head.toNat < r.tapeText.length ∧
      r.tapeText.toList[r.head.toNat]? = r.tape.toList[r.head.toNat]?) ∧
    ∀ (p : Program) (c c' : Configuration) (accepted : Bool),
      step p c = (c', .halted accepted) → (∀ cell ∈ c'.tape, cell.length = 1) →
        (ofFinal c' accepted).OnTape := by
  refine ⟨fun r r' hr hr' => ⟨fun h => ?_, fun ⟨haccepted, hhead, htape⟩ => ?_⟩,
    fun r hr => ⟨r.describe_eq, hr.under_head⟩, fun p c c' accepted => onTape_ofFinal⟩
  · obtain ⟨hhead, haccepted, htext⟩ := hr.of_describe_eq hr' h
    have hshown : Tape.shown (symbolsOf r.tape) r.head = Tape.shown (symbolsOf r'.tape) r'.head := by
      rw [← symbolsOf_tapeText, ← symbolsOf_tapeText, htext]
    refine ⟨haccepted, hhead, ?_⟩
    rw [← Tape.dropBlanks_shown (symbolsOf r.tape) r.head, hshown, Tape.dropBlanks_shown]
  · have hshown : Tape.shown (symbolsOf r.tape) r.head = Tape.shown (symbolsOf r'.tape) r.head :=
      Tape.shown_congr hr.toNat_lt (hhead ▸ hr'.toNat_lt) htape
    rw [describe_eq, describe_eq, hshown, hhead, verdict_inj.mpr haccepted]

/-- A tape with a line end and a bracket on it, and the same tape with two blanks after it. -/
theorem describe_tells_apart_blanks :
    let r : Result := ⟨"a\n[", 1, true, 5⟩
    let r' : Result := ⟨"a\n[__", 1, true, 9⟩
    (r.OnTape ∧ r'.OnTape) ∧ r.describe = r'.describe := by
  have hr : OnTape ⟨"a\n[", 1, true, 5⟩ := ⟨by decide, by decide⟩
  have hr' : OnTape ⟨"a\n[__", 1, true, 9⟩ := ⟨by decide, by decide⟩
  refine ⟨⟨hr, hr'⟩, (describe_tells_apart.1 _ _ hr hr').mpr ⟨rfl, rfl, by decide⟩⟩

end Result

end TapeMachine
