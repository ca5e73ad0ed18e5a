import Mathlib.Data.List.TakeWhile
import TapeMachine.Rule.Parser

/-!
# Pieces of texts

What cutting and stripping make of a text, said without cutting and stripping: a text stripped is
what stands between white space, and the parts of a text are what stands between its separators.

## Main statements

* `Text.strip_eq_iff` — stripping finds the tight text with white space around it
* `Text.strip_between_iff` — stripping a whole does nothing to pieces that get stripped anyway
* `Text.splitOn_eq_iff` — the parts between separators are the texts without it that it joins
-/

namespace TapeMachine

namespace Text

variable {f cs p q : List Char}

/-! ## White space around a text -/

/-- A text of white space only, perhaps of nothing. -/
def AllBlank (cs : List Char) : Prop := ∀ c ∈ cs, isBlank c = true

/-- No white space stands at either end. -/
def Tight (cs : List Char) : Prop :=
  (∀ c, cs.head? = some c → isBlank c = false) ∧ ∀ c, cs.getLast? = some c → isBlank c = false

/-- A text with white space around it. -/
def Padded (f cs : List Char) : Prop :=
  ∃ p q, AllBlank p ∧ AllBlank q ∧ cs = p ++ f ++ q

theorem AllBlank.append (hp : AllBlank p) (hq : AllBlank q) : AllBlank (p ++ q) := by
  intro c hc
  rcases List.mem_append.mp hc with hc | hc
  · exact hp c hc
  · exact hq c hc

theorem allBlank_nil : AllBlank [] := by simp [AllBlank]

theorem allBlank_space : AllBlank [' '] := by
  intro c hc
  rw [List.mem_singleton.mp hc]
  decide

theorem AllBlank.not_mem (hp : AllBlank p) {c : Char} (hc : isBlank c = false) : c ∉ p := by
  intro hm
  rw [hp c hm] at hc
  cases hc

theorem Padded.refl (f : List Char) : Padded f f := ⟨[], [], allBlank_nil, allBlank_nil, by simp⟩

theorem Padded.append_left (hp : AllBlank p) (h : Padded f cs) : Padded f (p ++ cs) := by
  obtain ⟨p', q', hp', hq', rfl⟩ := h
  exact ⟨p ++ p', q', hp.append hp', hq', by simp⟩

theorem Padded.append_right (hq : AllBlank q) (h : Padded f cs) : Padded f (cs ++ q) := by
  obtain ⟨p', q', hp', hq', rfl⟩ := h
  exact ⟨p', q' ++ q, hp', hq'.append hq, by simp⟩

/-- A character that is no white space stands in the padded text exactly if it stands in the text. -/
theorem Padded.mem_iff (h : Padded f cs) {c : Char} (hc : isBlank c = false) : c ∈ cs ↔ c ∈ f := by
  obtain ⟨p, q, hp, hq, rfl⟩ := h
  have hcp : c ∉ p := hp.not_mem hc
  have hcq : c ∉ q := hq.not_mem hc
  simp [hcp, hcq]

theorem Padded.subset (h : Padded f cs) : f ⊆ cs := by
  obtain ⟨p, q, -, -, rfl⟩ := h
  intro c hc
  exact List.mem_append_left _ (List.mem_append_right _ hc)

theorem tight_singleton {c : Char} : Tight [c] ↔ isBlank c = false := by
  simp [Tight]

/-- Between tight texts anything may stand. -/
theorem Tight.between {a b : List Char} (ha : Tight a) (hb : Tight b) (hna : a ≠ []) (hnb : b ≠ [])
    (w : List Char) : Tight (a ++ w ++ b) := by
  constructor
  · intro c hc
    refine ha.1 c ?_
    rw [List.append_assoc, List.head?_append] at hc
    cases a with
    | nil => exact absurd rfl hna
    | cons d rest => simpa using hc
  · intro c hc
    refine hb.2 c ?_
    rw [List.getLast?_append] at hc
    cases h : b.getLast? with
    | none => exact absurd (List.getLast?_eq_none_iff.mp h) hnb
    | some d => simpa [h] using hc

/-! ## Stripping -/

theorem dropWhile_of_tight (hf : Tight f) (hne : f ≠ []) (q : List Char) :
    (f ++ q).dropWhile isBlank = f ++ q := by
  cases f with
  | nil => exact absurd rfl hne
  | cons c rest => exact List.dropWhile_cons_of_neg (by simp [hf.1 c rfl])

theorem dropEnd_append_of_allBlank (hq : AllBlank q) :
    dropEnd isBlank (f ++ q) = dropEnd isBlank f := by
  unfold dropEnd
  rw [List.reverse_append, List.dropWhile_append_of_pos]
  intro c hc
  exact hq c (List.mem_reverse.mp hc)

theorem strip_padded (hf : Tight f) (h : Padded f cs) : strip cs = f := by
  obtain ⟨p, q, hp, hq, rfl⟩ := h
  unfold strip dropEnds
  rw [List.append_assoc, List.dropWhile_append_of_pos hp]
  by_cases hne : f = []
  · subst hne
    rw [List.nil_append, List.dropWhile_eq_nil_iff.mpr hq]
    rfl
  · rw [dropWhile_of_tight hf hne, dropEnd_append_of_allBlank hq]
    exact dropEnd_eq_self_iff.mpr hf.2

theorem tight_strip (cs : List Char) : Tight (strip cs) := by
  unfold strip dropEnds
  constructor
  · -- the first character left is the first that is no white space
    intro c hc
    obtain ⟨w, -, hw⟩ := dropEnd_append isBlank (cs.dropWhile isBlank)
    have hh : (cs.dropWhile isBlank).head? = some c := by
      rw [hw, List.head?_append, hc]
      rfl
    have hn := List.head?_dropWhile_not isBlank cs
    rw [hh] at hn
    simpa using hn
  · intro c hc
    unfold dropEnd at hc
    rw [List.getLast?_reverse] at hc
    have hn := List.head?_dropWhile_not isBlank (cs.dropWhile isBlank).reverse
    rw [hc] at hn
    simpa using hn

theorem padded_strip (cs : List Char) : Padded (strip cs) cs := by
  obtain ⟨w, hw, he⟩ := dropEnd_append isBlank (cs.dropWhile isBlank)
  refine ⟨cs.takeWhile isBlank, w, ?_, ?_, ?_⟩
  · intro c hc
    exact List.all_eq_true.mp (List.all_takeWhile) c hc
  · intro c hc
    exact List.all_eq_true.mp hw c hc
  · rw [List.append_assoc]
    unfold strip dropEnds
    rw [← he, List.takeWhile_append_dropWhile]

/-- Stripping finds the tight text with white space around it. -/
theorem strip_eq_iff : strip cs = f ↔ Tight f ∧ Padded f cs := by
  constructor
  · rintro rfl
    exact ⟨tight_strip cs, padded_strip cs⟩
  · rintro ⟨hf, h⟩
    exact strip_padded hf h

/-- Stripping a text as a whole does nothing to texts in it that get stripped anyway. -/
theorem strip_between_iff {a b w : List Char} (ha : Tight a) (hb : Tight b) (hna : a ≠ [])
    (hnb : b ≠ []) : (∃ x z, strip cs = x ++ w ++ z ∧ Padded a x ∧ Padded b z) ↔
      ∃ x z, cs = x ++ w ++ z ∧ Padded a x ∧ Padded b z := by
  constructor
  · rintro ⟨x, z, h, hx, hz⟩
    obtain ⟨p, q, hp, hq, he⟩ := padded_strip cs
    refine ⟨p ++ x, z ++ q, ?_, hx.append_left hp, hz.append_right hq⟩
    rw [he, h]
    simp
  · rintro ⟨x, z, rfl, ⟨p, p', hp, hp', rfl⟩, ⟨q', q, hq', hq, rfl⟩⟩
    refine ⟨a ++ p', q' ++ b, ?_, (Padded.refl a).append_right hp',
      (Padded.refl b).append_left hq'⟩
    refine strip_eq_iff.mpr ⟨?_, p, q, hp, hq, by simp⟩
    have h := ha.between hb hna hnb (p' ++ w ++ q')
    simpa using h

/-! ## Parts -/

theorem not_mem_of_mem_splitOn {a : Char} : ∀ {cs part : List Char}, part ∈ cs.splitOn a → a ∉ part
  | [], part, h => by
    rw [List.splitOn_nil, List.mem_singleton] at h
    simp [h]
  | c :: cs, part, h => by
    rw [List.splitOn_cons_eq_if_modifyHead] at h
    by_cases hc : (c == a) = true
    · rw [if_pos hc] at h
      rcases List.mem_cons.mp h with rfl | h
      · simp
      · exact not_mem_of_mem_splitOn h
    · rw [if_neg hc] at h
      obtain ⟨first, rest, hs⟩ := List.exists_cons_of_ne_nil (List.splitOn_ne_nil a cs)
      have hmem : ∀ x ∈ first :: rest, a ∉ x := fun x hx => not_mem_of_mem_splitOn (hs ▸ hx)
      rw [hs, List.modifyHead_cons] at h
      rcases List.mem_cons.mp h with rfl | h
      · have hf := hmem first List.mem_cons_self
        simp only [List.mem_cons, not_or]
        exact ⟨fun he => hc (by simp [he]), hf⟩
      · exact hmem part (List.mem_cons_of_mem _ h)

/-- The parts between separators are the texts without it that it joins. -/
theorem splitOn_eq_iff {a : Char} {cs : List Char} {parts : List (List Char)} :
    cs.splitOn a = parts ↔ parts ≠ [] ∧ (∀ x ∈ parts, a ∉ x) ∧ [a].intercalate parts = cs := by
  constructor
  · rintro rfl
    exact ⟨List.splitOn_ne_nil a cs, fun x hx => not_mem_of_mem_splitOn hx,
      List.intercalate_splitOn a⟩
  · rintro ⟨hne, hnot, rfl⟩
    exact List.splitOn_intercalate a hnot hne

theorem ne_nil_of_ne_empty {s : String} (h : s ≠ "") : s.toList ≠ [] :=
  fun he => h (String.toList_eq_nil_iff.mp he)

end Text

end TapeMachine
