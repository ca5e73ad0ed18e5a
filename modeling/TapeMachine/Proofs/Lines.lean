import TapeMachine.Journal

/-!
# One line for each value

A JSON value is written in printable ASCII characters, whatever texts and numbers are in it. So it
stands on one line, and a log has as many lines as it has entries.

## Main statements

* `Json.printable_write` — a written value consists of printable ASCII characters
* `Journal.count_newline_logText` — a log has a line for each entry
-/

namespace TapeMachine

/-! ## Printable characters -/

/-- A printable ASCII character, the blank among them. -/
def Printable (c : Char) : Prop := 0x20 ≤ c.toNat ∧ c.toNat ≤ 0x7E

instance (c : Char) : Decidable (Printable c) := inferInstanceAs (Decidable (_ ∧ _))

/-- A text that is all printable. The instance goes through the list: there are too many characters to
go through them. -/
def AllPrintable (cs : List Char) : Prop := ∀ c ∈ cs, Printable c

instance (cs : List Char) : Decidable (AllPrintable cs) := List.decidableBAll Printable cs

theorem Printable.ne_newline {c : Char} (h : Printable c) : c ≠ '\n' := by
  rintro rfl
  exact absurd h (by decide)

theorem printable_of_isDigit {c : Char} (h : c.isDigit = true) : Printable c := by
  simp only [Char.isDigit, ge_iff_le, Bool.and_eq_true, decide_eq_true_eq, UInt32.le_iff_toNat_le] at h
  obtain ⟨hlow, hhigh⟩ := h
  exact ⟨Nat.le_trans (by decide) hlow, Nat.le_trans hhigh (by decide)⟩

theorem AllPrintable.append {cs ds : List Char} (hc : AllPrintable cs) (hd : AllPrintable ds) :
    AllPrintable (cs ++ ds) := List.forall_mem_append.mpr ⟨hc, hd⟩

theorem AllPrintable.cons {c : Char} {cs : List Char} (hcs : AllPrintable cs) (hc : Printable c) :
    AllPrintable (c :: cs) := List.forall_mem_cons.mpr ⟨hc, hcs⟩

theorem printable_append {a b : String} (ha : AllPrintable a.toList) (hb : AllPrintable b.toList) :
    AllPrintable (a ++ b).toList := by
  rw [String.toList_append]
  exact ha.append hb

theorem printable_intercalate {sep : String} (hsep : AllPrintable sep.toList) :
    ∀ {ss : List String}, (∀ s ∈ ss, AllPrintable s.toList) →
      AllPrintable (String.intercalate sep ss).toList
  | [], _ => by
    rw [String.intercalate_nil]
    decide
  | [s], h => by
    rw [String.intercalate_singleton]
    exact h s List.mem_cons_self
  | s :: s' :: ss, h => by
    rw [String.intercalate_cons_cons]
    exact printable_append (printable_append (h s List.mem_cons_self) hsep)
      (printable_intercalate hsep fun x hx => h x (List.mem_cons_of_mem _ hx))

/-! ## Numbers -/

theorem isDigit_of_mem_natRepr {n : Nat} {c : Char} (h : c ∈ (Nat.repr n).toList) :
    c.isDigit = true := by
  rw [Nat.repr, String.toList_ofList] at h
  exact Nat.isDigit_of_mem_toDigits (by decide) (by decide) h

/-- A number is written in digits, with a sign if it is negative. -/
theorem of_mem_intRepr {n : Int} {c : Char} (h : c ∈ (Int.repr n).toList) :
    c = '-' ∨ c.isDigit = true := by
  cases n with
  | ofNat n => exact Or.inr (isDigit_of_mem_natRepr h)
  | negSucc n =>
    rw [Int.repr, String.toList_append, List.mem_append] at h
    rcases h with h | h
    · exact Or.inl (List.mem_singleton.mp h)
    · exact Or.inr (isDigit_of_mem_natRepr h)

/-- A character that numbers are written with. -/
def Numeric (c : Char) : Prop := c.isDigit = true ∨ c ∈ "+-.aefin".toList

instance (c : Char) : Decidable (Numeric c) := inferInstanceAs (Decidable (_ ∨ _))

/-- A text in which there is nothing but numbers. -/
def AllNumeric (cs : List Char) : Prop := ∀ c ∈ cs, Numeric c

instance (cs : List Char) : Decidable (AllNumeric cs) := List.decidableBAll Numeric cs

theorem Numeric.printable {c : Char} (h : Numeric c) : Printable c := by
  rcases h with h | h
  · exact printable_of_isDigit h
  · have hall : AllPrintable "+-.aefin".toList := by decide
    exact hall c h

theorem AllNumeric.printable {cs : List Char} (h : AllNumeric cs) : AllPrintable cs :=
  fun c hc => (h c hc).printable

theorem AllNumeric.append {cs ds : List Char} (hc : AllNumeric cs) (hd : AllNumeric ds) :
    AllNumeric (cs ++ ds) := List.forall_mem_append.mpr ⟨hc, hd⟩

theorem AllNumeric.cons {c : Char} {cs : List Char} (hcs : AllNumeric cs) (hc : Numeric c) :
    AllNumeric (c :: cs) := List.forall_mem_cons.mpr ⟨hc, hcs⟩

theorem numeric_intRepr (n : Int) : AllNumeric (Int.repr n).toList := by
  intro c h
  rcases of_mem_intRepr h with rfl | h
  · decide
  · exact Or.inl h

namespace Binary64

theorem numeric_layout {digits : List Char} (h : AllNumeric digits) (exponent : Int) :
    AllNumeric (layout digits exponent) := by
  have htake : ∀ n, AllNumeric (digits.take n) := fun n c hc => h c (List.mem_of_mem_take hc)
  have hdrop : ∀ n, AllNumeric (digits.drop n) := fun n c hc => h c (List.mem_of_mem_drop hc)
  have hzeros : ∀ n, AllNumeric (List.replicate n '0') := by
    intro n c hc
    rw [List.eq_of_mem_replicate hc]
    decide
  have hpoint : AllNumeric ['0', '.'] ∧ AllNumeric ['.', '0'] := by decide
  unfold layout
  simp only
  split
  · split
    · exact (hpoint.1.append (hzeros _)).append h
    · split
      · exact (h.append (hzeros _)).append hpoint.2
      · exact (htake _).append ((hdrop _).cons (by decide))
  · have hpower : AllNumeric (Nat.repr exponent.natAbs).toList :=
      fun c hc => Or.inl (isDigit_of_mem_natRepr hc)
    refine (((htake 1).append ?_).append ?_).append ?_
    · split
      · exact hzeros 0
      · exact (hdrop 1).cons (by decide)
    · split <;> decide
    · split
      · exact hpower.cons (by decide)
      · exact hpower

/-- A number is written with the characters of numbers. -/
theorem numeric_text (x : Binary64) : AllNumeric x.text.toList := by
  unfold text
  split
  · decide
  · decide
  · decide
  · next negative m e =>
    have hsign : AllNumeric (if negative = true then "-" else "").toList := by
      split <;> decide
    simp only
    split
    · rw [String.toList_append]
      exact hsign.append (by decide)
    · rw [String.toList_append, String.toList_ofList]
      refine hsign.append ?_
      -- what is left of digits without zeros are digits
      exact numeric_layout (fun c hc => Or.inl
        (Nat.isDigit_of_mem_toDigits (by decide) (by decide) (List.mem_reverse.mp
          ((List.dropWhile_sublist _).subset (List.mem_reverse.mp hc))))) _

end Binary64

/-! ## Values -/

namespace Json

theorem printable_writeString (s : String) : AllPrintable (writeString s).toList := by
  intro c h
  rw [writeString, String.toList_ofList, List.mem_append, List.mem_cons, List.mem_flatMap,
    List.mem_singleton] at h
  rcases h with (rfl | ⟨d, -, hd⟩) | rfl
  · decide
  · exact escape_ascii hd
  · decide

theorem printable_writeFloat (x : Binary64) : AllPrintable (writeFloat x).toList := by
  unfold writeFloat
  split
  · decide
  · decide
  · decide
  · exact x.numeric_text.printable

mutual

/-- A written value consists of printable ASCII characters. -/
theorem printable_write : ∀ j : Json, AllPrintable j.write.toList
  | .null => by decide
  | .bool true => by decide
  | .bool false => by decide
  | .int n => (numeric_intRepr n).printable
  | .float x => printable_writeFloat x
  | .string s => printable_writeString s
  | .array items => by
    rw [write]
    exact printable_append (printable_append (by decide)
      (printable_intercalate (by decide) (printable_writeItems items))) (by decide)
  | .object fields => by
    rw [write]
    exact printable_append (printable_append (by decide)
      (printable_intercalate (by decide) (printable_writeFields fields))) (by decide)

theorem printable_writeItems : ∀ (items : List Json), ∀ s ∈ writeItems items,
    AllPrintable s.toList
  | [], s, h => by simp [writeItems] at h
  | j :: rest, s, h => by
    rw [writeItems, List.mem_cons] at h
    rcases h with rfl | h
    · exact printable_write j
    · exact printable_writeItems rest s h

theorem printable_writeFields : ∀ (fields : List (String × Json)), ∀ s ∈ writeFields fields,
    AllPrintable s.toList
  | [], s, h => by simp [writeFields] at h
  | (k, j) :: rest, s, h => by
    rw [writeFields, List.mem_cons] at h
    rcases h with rfl | h
    · exact printable_append (printable_append (printable_writeString k) (by decide))
        (printable_write j)
    · exact printable_writeFields rest s h

end

/-- A written value stands on one line. -/
theorem newline_not_mem_write (j : Json) : '\n' ∉ j.write.toList :=
  fun h => (printable_write j _ h).ne_newline rfl

end Json

/-! ## Logs -/

/-- A log has a line for each entry. -/
theorem Journal.count_newline_logText (entries : List Json) :
    (Journal.logText entries).toList.count '\n' = entries.length := by
  unfold Journal.logText
  induction entries with
  | nil => rfl
  | cons e entries ih =>
    rw [List.map_cons, String.join_cons, String.toList_append, String.toList_append,
      List.count_append, List.count_append, ih, List.count_eq_zero.mpr e.newline_not_mem_write,
      List.length_cons]
    have hone : "\n".toList.count '\n' = 1 := by decide
    omega

end TapeMachine
