/-!
# White space

Which characters count as white space around a field of a rule, around a number and around a typed
line, and how it is taken off.

## Main statements

* `dropEnd_eq_self_iff` — what stripping leaves alone
* `isBlank_of_isWhitespace` — every ASCII white space character counts
-/

namespace TapeMachine.Text

/-- White space: the characters of Unicode that separate words or lines, with the four ASCII
separators U+001C to U+001F. The zero width space and the byte order mark are not among them. -/
def isBlank (c : Char) : Bool :=
  let n := c.toNat
  (0x09 ≤ n && n ≤ 0x0D) || (0x1C ≤ n && n ≤ 0x20) || n == 0x85 || n == 0xA0 || n == 0x1680 ||
    (0x2000 ≤ n && n ≤ 0x200A) || n == 0x2028 || n == 0x2029 || n == 0x202F || n == 0x205F ||
    n == 0x3000

theorem isBlank_of_isWhitespace {c : Char} (h : c.isWhitespace = true) : isBlank c = true := by
  simp only [Char.isWhitespace, Bool.or_eq_true, decide_eq_true_eq] at h
  rcases h with ((h | h) | h) | h <;> subst h <;> decide

/-! ## Taking characters off the ends -/

/-- The characters without those at the end that satisfy `p`. -/
def dropEnd (p : Char → Bool) (cs : List Char) : List Char := (cs.reverse.dropWhile p).reverse

/-- The characters without those at both ends that satisfy `p`. -/
def dropEnds (p : Char → Bool) (cs : List Char) : List Char := dropEnd p (cs.dropWhile p)

/-- The characters without white space at both ends. -/
def strip (cs : List Char) : List Char := dropEnds isBlank cs

/-- A text without white space at both ends. -/
def trimmed (s : String) : String := String.ofList (strip s.toList)

/-- Nothing is lost but what satisfies `p`. -/
theorem dropEnd_append (p : Char → Bool) (cs : List Char) :
    ∃ w, w.all p = true ∧ cs = dropEnd p cs ++ w := by
  refine ⟨(cs.reverse.takeWhile p).reverse, by simp, ?_⟩
  have h := congrArg List.reverse (List.takeWhile_append_dropWhile (p := p) (l := cs.reverse))
  rw [List.reverse_append, List.reverse_reverse] at h
  exact h.symm

theorem dropEnd_eq_self_iff {p : Char → Bool} {cs : List Char} :
    dropEnd p cs = cs ↔ ∀ c, cs.getLast? = some c → p c = false := by
  rw [List.getLast?_eq_head?_reverse]
  unfold dropEnd
  constructor
  · intro h c hc
    have h' : cs.reverse.dropWhile p = cs.reverse := by
      rw [← List.reverse_reverse (List.dropWhile _ _), h]
    cases hr : cs.reverse with
    | nil => simp [hr] at hc
    | cons d rest =>
      rw [hr] at h' hc
      simp only [List.head?_cons, Option.some.injEq] at hc
      subst hc
      by_cases hd : p d = true
      · rw [List.dropWhile_cons_of_pos hd] at h'
        have := congrArg List.length h'
        have hle := (List.dropWhile_sublist p (l := rest)).length_le
        simp at this; omega
      · simpa using hd
  · intro h
    cases hr : cs.reverse with
    | nil => simpa using hr.symm
    | cons d rest =>
      have hd : p d = false := h d (by simp [hr])
      rw [List.dropWhile_cons_of_neg (by simp [hd]), ← hr, List.reverse_reverse]

end TapeMachine.Text
