/-!
# Grouped numbers

Counts in messages have a comma before every third digit from the right.

## Main statements

* `ungroup_groupDigits` — taking the commas away gives the digits back
-/

namespace TapeMachine.Text

/-- Puts a comma before every third digit, counted from the end of a list in reverse order. -/
def groupReversed : List Char → List Char
  | a :: b :: c :: d :: rest => a :: b :: c :: ',' :: groupReversed (d :: rest)
  | few => few

/-- Puts a comma before every third digit, counted from the end. -/
def groupDigits (digits : List Char) : List Char := (groupReversed digits.reverse).reverse

def grouped (n : Int) : String :=
  let digits := String.ofList (groupDigits (Nat.repr n.natAbs).toList)
  if n < 0 then "-" ++ digits else digits

theorem ungroup_groupReversed {digits : List Char} (h : ',' ∉ digits) :
    (groupReversed digits).filter (· ≠ ',') = digits := by
  fun_induction groupReversed digits with
  | case1 a b c d rest ih =>
    simp only [List.mem_cons, not_or] at h
    obtain ⟨ha, hb, hc, hd, hr⟩ := h
    have ih' := ih (by simp [hd, hr])
    simp [Ne.symm ha, Ne.symm hb, Ne.symm hc] at ih' ⊢
    exact ih'
  | case2 few _ =>
    rw [List.filter_eq_self]
    intro a ha
    simpa using fun he : a = ',' => h (he ▸ ha)

theorem ungroup_groupDigits {digits : List Char} (h : ',' ∉ digits) :
    (groupDigits digits).filter (· ≠ ',') = digits := by
  unfold groupDigits
  rw [List.filter_reverse, ungroup_groupReversed (by simpa using h), List.reverse_reverse]

end TapeMachine.Text
