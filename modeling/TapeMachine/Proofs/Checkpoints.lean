import Mathlib.Data.List.TakeWhile
import TapeMachine.Batch.Checkpoint

/-!
# Checkpoints read back

What a campaign writes into its checkpoint is what it finds there later: the text of a count reads
as the object with that count. The one thing that can go wrong is a count with more digits than a
number may have, and then nothing is read at all.

## Main statements

* `Json.number?_toDigits` — the digits of a number read as the number
* `Checkpoint.tokens_text` — the tokens of a checkpoint
* `Checkpoint.count_of_read` — the progress that is read is the count that was written
-/

namespace TapeMachine

namespace Json

/-! ## The digits of a number -/

theorem isDigit_of_mem_toDigits {n : Nat} {c : Char} (h : c ∈ Nat.toDigits 10 n) :
    c.isDigit = true := Nat.isDigit_of_mem_toDigits (by decide) (by decide) h

/-- The digits of a number that is not zero do not begin with a zero. -/
theorem head?_toDigits {n : Nat} (h : 0 < n) : (Nat.toDigits 10 n).head? ≠ some '0' := by
  induction n using Nat.strongRecOn with
  | ind n ih =>
    by_cases hlt : n < 10
    · have hall : ∀ k ∈ List.range 10, 0 < k → (Nat.toDigits 10 k).head? ≠ some '0' := by decide
      exact hall n (List.mem_range.mpr hlt) h
    · have hrest := ih (n / 10) (by omega) (by omega)
      obtain ⟨c, rest, hd⟩ := List.exists_cons_of_ne_nil (@Nat.toDigits_ne_nil (n / 10) 10)
      rw [hd] at hrest
      rw [Nat.toDigits_of_base_le (by decide) (by omega), hd]
      exact hrest

theorem spanDigits_toDigits (n : Nat) :
    spanDigits (Nat.toDigits 10 n) = (n, (Nat.toDigits 10 n).length, []) := by
  have hall : ∀ c ∈ Nat.toDigits 10 n, c.isDigit = true := fun c hc => isDigit_of_mem_toDigits hc
  have hvalue : Text.ofDigits ((Nat.toDigits 10 n).map fun c => c.toNat - 0x30) = n := by
    rw [Text.ofDigits, List.foldl_map]
    exact Nat.ofDigitChars_toDigits (by decide) (by decide)
  rw [spanDigits, List.takeWhile_eq_self_iff.mpr hall, List.dropWhile_eq_nil_iff.mpr hall, hvalue]

/-- The digits of a number read as the number, if there are not too many. -/
theorem number?_toDigits (n : Nat) : number? false (Nat.toDigits 10 n) =
    if Text.maxDigits < (Nat.toDigits 10 n).length then .error .tooManyDigits else .ok (.int n) := by
  have hzero : ¬ ((Nat.toDigits 10 n).head? = some '0' ∧ (Nat.toDigits 10 n).length ≠ 1) := by
    rcases Nat.eq_zero_or_pos n with rfl | hpos
    · decide
    · exact fun h => head?_toDigits hpos h.1
  obtain ⟨count, hcount⟩ := Nat.exists_eq_succ_of_ne_zero
    (Nat.ne_of_gt (@Nat.length_toDigits_pos 10 n))
  unfold number?
  rw [spanDigits_toDigits, hcount]
  rw [hcount] at hzero
  simp only
  have hnone : startsFraction [] = false := rfl
  rw [if_neg hzero]
  simp only [hnone, Bool.false_eq_true, if_false, List.isEmpty_nil, if_true]

theorem exists_digits (n : Nat) : ∃ c rest, Nat.toDigits 10 n = c :: rest ∧ c.isDigit = true ∧
    ∀ d ∈ rest, d.isDigit = true := by
  have hall : ∀ d ∈ Nat.toDigits 10 n, d.isDigit = true := fun d hd => isDigit_of_mem_toDigits hd
  obtain ⟨c, rest, hd⟩ := List.exists_cons_of_ne_nil (@Nat.toDigits_ne_nil n 10)
  rw [hd, List.forall_mem_cons] at hall
  exact ⟨c, rest, hd, hall.1, hall.2⟩

/-- The digits of a number are no name and have no sign. -/
theorem literal?_toDigits (n : Nat) :
    literal? (Nat.toDigits 10 n) = number? false (Nat.toDigits 10 n) := by
  obtain ⟨c, rest, hd, hc, -⟩ := exists_digits n
  have hne : ∀ {d : Char} {ds : List Char}, d.isDigit = false → c :: rest ≠ d :: ds := by
    rintro d ds hf he
    cases he
    rw [hc] at hf
    cases hf
  have hname : ∀ s ∈ ["null", "true", "false", "NaN", "Infinity", "-Infinity"],
      ¬ c :: rest = s.toList := by
    intro s hs he
    have hheads : ∀ s ∈ ["null", "true", "false", "NaN", "Infinity", "-Infinity"],
        s.toList.head?.all (fun d => !d.isDigit) = true := by decide
    have hhead := hheads s hs
    rw [← he, List.head?_cons, Option.all_some, hc] at hhead
    cases hhead
  rw [hd, literal?.eq_def, if_neg (hname _ (by simp)), if_neg (hname _ (by simp)),
    if_neg (hname _ (by simp)), if_neg (hname _ (by simp)), if_neg (hname _ (by simp)),
    if_neg (hname _ (by simp))]
  split
  · next rest' he => exact absurd he (hne (by decide))
  · rfl

end Json

namespace Checkpoint

open Json

/-! ## The tokens of a checkpoint -/

/-- The tokens of a checkpoint from the count on, which is a value or a fault. -/
def tokensFrom : Except ReadFault Json → List Token
  | .error e => [.unreadable e]
  | .ok j => [.scalar j, .closeObject]

variable {standIn : Option Char}

theorem tokens_space {c : Char} {rest : List Char} (hc : isSpace c = true) :
    tokens standIn (c :: rest) = tokens standIn rest := by rw [tokens, if_pos hc]

theorem tokens_openObject (rest : List Char) :
    tokens standIn ('\x7b' :: rest) = .openObject :: tokens standIn rest := by
  rw [tokens, if_neg (by decide), if_pos (by decide)]

theorem tokens_fieldName (rest : List Char) :
    tokens standIn ('"' :: (fieldName.toList ++ '"' :: ':' :: rest)) =
      .scalar (.string fieldName) :: .colon :: tokens standIn rest := by
  have hspan : spanString (fieldName.toList ++ '"' :: ':' :: rest) =
      some (fieldName.toList, ':' :: rest) := rfl
  have hname : unescape standIn fieldName.toList = .ok fieldName.toList := by rfl
  have hcolon : tokens standIn (':' :: rest) = .colon :: tokens standIn rest := by
    rw [tokens, if_neg (by decide), if_neg (by decide), if_neg (by decide), if_neg (by decide),
      if_neg (by decide), if_pos (by decide)]
  rw [tokens, if_neg (by decide), if_neg (by decide), if_neg (by decide), if_neg (by decide),
    if_neg (by decide), if_neg (by decide), if_neg (by decide), if_pos (by decide)]
  split
  · next h =>
    rw [hspan] at h
    cases h
  · next body rest' h =>
    rw [hspan] at h
    cases h
    rw [hname, hcolon]
    simp only [String.ofList_toList]

theorem tokens_digits (n : Nat) : tokens standIn (Nat.toDigits 10 n ++ ['\n', '\x7d']) =
    tokensFrom (number? false (Nat.toDigits 10 n)) := by
  obtain ⟨c, rest, hd, hc, hdigits⟩ := exists_digits n
  have hliteral : ∀ d : Char, d.isDigit = true → isLiteralChar d = true := fun d h => by
    simp [isLiteralChar, Char.isAlphanum, h]
  have hne : ∀ {d : Char}, d.isDigit = false → ¬ (c == d) = true := by
    intro d hf he
    rw [beq_iff_eq.mp he, hf] at hc
    cases hc
  have hspace : ¬ isSpace c = true := by
    simp only [isSpace, Bool.or_eq_true, not_or]
    exact ⟨⟨⟨hne (by decide), hne (by decide)⟩, hne (by decide)⟩, hne (by decide)⟩
  have hrest : ∀ d ∈ rest, isLiteralChar d = true := fun d hm =>
    hliteral d (hdigits d hm)
  have hclose : tokens standIn ['\n', '\x7d'] = [.closeObject] := by
    rw [tokens_space rfl, tokens, if_neg (by decide), if_neg (by decide), if_pos (by decide), tokens]
  have htake : (rest ++ ['\n', '\x7d']).takeWhile isLiteralChar = rest := by
    rw [List.takeWhile_append_of_pos hrest, List.takeWhile_cons_of_neg (by decide), List.append_nil]
  have hdrop : (rest ++ ['\n', '\x7d']).dropWhile isLiteralChar = ['\n', '\x7d'] := by
    rw [List.dropWhile_append_of_pos hrest, List.dropWhile_cons_of_neg (by decide)]
  rw [← literal?_toDigits, hd, List.cons_append, tokens, if_neg hspace, if_neg (hne (by decide)),
    if_neg (hne (by decide)), if_neg (hne (by decide)), if_neg (hne (by decide)),
    if_neg (hne (by decide)), if_neg (hne (by decide)), if_neg (hne (by decide)),
    if_pos (hliteral c hc), htake, hdrop, hclose]
  cases literal? (c :: rest) <;> rfl

theorem toList_text (n : Nat) : (text n).toList =
    '\x7b' :: '\n' :: ' ' :: ' ' :: ' ' :: ' ' :: '"' ::
      (fieldName.toList ++ '"' :: ':' :: ' ' :: (Nat.toDigits 10 n ++ ['\n', '\x7d'])) := by
  have hrepr : (Int.repr n).toList = Nat.toDigits 10 n := by
    have hint : Int.repr n = Nat.repr n := rfl
    rw [hint, Nat.repr, String.toList_ofList]
  simp only [text, String.toList_append, hrepr]
  rfl

theorem tokens_text (n : Nat) : tokens standIn (text n).toList =
    .openObject :: .scalar (.string fieldName) :: .colon ::
      tokensFrom (number? false (Nat.toDigits 10 n)) := by
  rw [toList_text, tokens_openObject, tokens_space rfl, tokens_space rfl, tokens_space rfl,
    tokens_space rfl, tokens_space rfl, tokens_fieldName, tokens_space rfl, tokens_digits]

theorem cr_not_mem_text (n : Nat) : '\r' ∉ (text n).toList := by
  have hdigits : '\r' ∉ Nat.toDigits 10 n := fun h => absurd (isDigit_of_mem_toDigits h) (by decide)
  have hname : '\r' ∉ fieldName.toList := by decide
  simp [toList_text, hdigits, hname]

/-- The progress that is read from the text of a count is the count. -/
theorem count_of_read [Host] {n : Nat} {j : Json} {progress : Progress}
    (hj : Json.readLoosely (text n) = .ok j) (hp : ofJson j = .ok progress) : progress = .count n := by
  have hopen : readToken (.value, []) .openObject = .ok (.nameOrEnd, []) := openWithin_nil _
  rw [Json.readLoosely, tokens_text, number?_toDigits] at hj
  split at hj
  · rw [ofTokens?, List.foldlM_cons, hopen] at hj
    cases hj
  · rw [ofTokens?, List.foldlM_cons, hopen] at hj
    cases hj
    have hcount := ofJson_count n
    rw [hcount.symm.trans hp |> Except.ok.inj]

/-! ## The bytes of a checkpoint -/

/-- The bytes of the checkpoint that says a count; for nothing there is no checkpoint. -/
def bytes? (c : Nat) : Option ByteArray :=
  if c = 0 then none else some (text c).toUTF8

theorem eq_zero_of_bytes? {c : Nat} (h : bytes? c = none) : c = 0 := by
  by_contra hc
  rw [bytes?, if_neg hc] at h
  cases h

theorem eq_text_of_bytes? {c : Nat} {bytes : ByteArray}
    (h : bytes? c = some bytes) : bytes = (text c).toUTF8 := by
  unfold bytes? at h
  split at h
  · cases h
  · exact (Option.some.inj h).symm

end Checkpoint

end TapeMachine
