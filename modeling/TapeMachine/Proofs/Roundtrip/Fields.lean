import Mathlib.Data.List.Forall2
import TapeMachine.Proofs.Pieces

/-!
# Fields and the white space around them

What the reader makes of a line: the fields of a side are what stands, with white space around it,
between commas, and the sides of a rule are what stands around its only arrow.

## Main statements

* `fields_eq_pair`, `fields_eq_triple` — the fields of a text with one comma, with two
* `fields_strip_eq_pair`, `fields_strip_eq_triple` — stripping a side as a whole changes nothing
* `sides?_eq_some` — the two sides of the only arrow
-/

namespace TapeMachine

/-! ## Fields -/

/-- A text that can stand between commas. -/
structure IsField (cs : List Char) : Prop where
  tight : Text.Tight cs
  no_comma : ',' ∉ cs

theorem not_blank_comma : Text.isBlank ',' = false := by decide

/-- A part between commas that is stripped to a text is the text with white space around it. -/
theorem strip_part_iff {x : List Char} {f : String} :
    ',' ∉ x ∧ String.ofList (Text.strip x) = f ↔ IsField f.toList ∧ Text.Padded f.toList x := by
  have hs : String.ofList (Text.strip x) = f ↔ Text.strip x = f.toList := by
    rw [← String.toList_inj, String.toList_ofList]
  rw [hs, Text.strip_eq_iff]
  constructor
  · rintro ⟨hx, ht, hp⟩
    exact ⟨⟨ht, fun hm => hx ((hp.mem_iff not_blank_comma).mpr hm)⟩, hp⟩
  · rintro ⟨⟨ht, hf⟩, hp⟩
    exact ⟨fun hm => hf ((hp.mem_iff not_blank_comma).mp hm), ht, hp⟩

/-- The fields of a text are what stands, with white space around it, between its commas. -/
theorem fields_eq_iff {cs : List Char} {fs : List String} :
    fields cs = fs ↔ fs ≠ [] ∧ ∃ parts, [','].intercalate parts = cs ∧
      List.Forall₂ (fun x f => IsField f.toList ∧ Text.Padded f.toList x) parts fs := by
  unfold fields
  constructor
  · rintro rfl
    obtain ⟨hne, hnot, hcs⟩ := (@Text.splitOn_eq_iff ',' cs _).mp rfl
    refine ⟨by simp, _, hcs, ?_⟩
    rw [List.forall₂_map_right_iff, List.forall₂_same]
    intro x hx
    exact strip_part_iff.mp ⟨hnot x hx, rfl⟩
  · rintro ⟨hne, parts, rfl, hall⟩
    have hparts : (∀ x ∈ parts, ',' ∉ x) ∧
        parts.map (fun part => String.ofList (Text.strip part)) = fs := by
      clear hne
      induction hall with
      | nil => simp
      | cons h _ ih =>
        obtain ⟨hx, hf⟩ := strip_part_iff.mpr h
        obtain ⟨hxs, hfs⟩ := ih
        refine ⟨?_, by rw [List.map_cons, hf, hfs]⟩
        intro x hm
        rcases List.mem_cons.mp hm with rfl | hm
        · exact hx
        · exact hxs x hm
    have hpne : parts ≠ [] := fun he => hne (by rw [← hparts.2, he, List.map_nil])
    rw [Text.splitOn_eq_iff.mpr ⟨hpne, hparts.1, rfl⟩]
    exact hparts.2

/-- A text has two fields if it has one comma. -/
theorem fields_eq_pair {cs : List Char} {a b : String} :
    fields cs = [a, b] ↔ IsField a.toList ∧ IsField b.toList ∧
      ∃ x y, cs = x ++ [','] ++ y ∧ Text.Padded a.toList x ∧ Text.Padded b.toList y := by
  rw [fields_eq_iff]
  constructor
  · rintro ⟨-, parts, rfl, hall⟩
    cases hall with
    | cons ha hall =>
      cases hall with
      | cons hb hall =>
        cases hall
        exact ⟨ha.1, hb.1, _, _, by simp [List.intercalate], ha.2, hb.2⟩
  · rintro ⟨ha, hb, x, y, rfl, hx, hy⟩
    exact ⟨by simp, [x, y], by simp [List.intercalate], .cons ⟨ha, hx⟩ (.cons ⟨hb, hy⟩ .nil)⟩

/-- A text has three fields if it has two commas. -/
theorem fields_eq_triple {cs : List Char} {a b c : String} :
    fields cs = [a, b, c] ↔ IsField a.toList ∧ IsField b.toList ∧ IsField c.toList ∧
      ∃ x y z, cs = x ++ ([','] ++ y ++ [',']) ++ z ∧ Text.Padded a.toList x ∧
        Text.Padded b.toList y ∧ Text.Padded c.toList z := by
  rw [fields_eq_iff]
  constructor
  · rintro ⟨-, parts, rfl, hall⟩
    cases hall with
    | cons ha hall =>
      cases hall with
      | cons hb hall =>
        cases hall with
        | cons hc hall =>
          cases hall
          exact ⟨ha.1, hb.1, hc.1, _, _, _, by simp [List.intercalate], ha.2, hb.2, hc.2⟩
  · rintro ⟨ha, hb, hc, x, y, z, rfl, hx, hy, hz⟩
    exact ⟨by simp, [x, y, z], by simp [List.intercalate],
      .cons ⟨ha, hx⟩ (.cons ⟨hb, hy⟩ (.cons ⟨hc, hz⟩ .nil))⟩

/-- The fields of a text are made of its characters. -/
theorem subset_of_fields_pair {cs : List Char} {a b : String} (h : fields cs = [a, b]) :
    a.toList ⊆ cs ∧ b.toList ⊆ cs := by
  obtain ⟨-, -, x, y, rfl, hx, hy⟩ := fields_eq_pair.mp h
  exact ⟨fun c hc => by simp [hx.subset hc], fun c hc => by simp [hy.subset hc]⟩

theorem subset_of_fields_triple {cs : List Char} {a b c : String} (h : fields cs = [a, b, c]) :
    a.toList ⊆ cs ∧ b.toList ⊆ cs ∧ c.toList ⊆ cs := by
  obtain ⟨-, -, -, x, y, z, rfl, hx, hy, hz⟩ := fields_eq_triple.mp h
  exact ⟨fun d hd => by simp [hx.subset hd], fun d hd => by simp [hy.subset hd],
    fun d hd => by simp [hz.subset hd]⟩

/-- A side stripped as a whole has the same two fields, if they are not empty. -/
theorem fields_strip_eq_pair {cs : List Char} {a b : String} (ha : a ≠ "") (hb : b ≠ "") :
    fields (Text.strip cs) = [a, b] ↔ fields cs = [a, b] := by
  rw [fields_eq_pair, fields_eq_pair]
  refine and_congr_right fun hfa => and_congr_right fun hfb => ?_
  exact Text.strip_between_iff hfa.tight hfb.tight (Text.ne_nil_of_ne_empty ha) (Text.ne_nil_of_ne_empty hb)

/-- A side stripped as a whole has the same three fields, if the outer ones are not empty. -/
theorem fields_strip_eq_triple {cs : List Char} {a b c : String} (ha : a ≠ "") (hc : c ≠ "") :
    fields (Text.strip cs) = [a, b, c] ↔ fields cs = [a, b, c] := by
  rw [fields_eq_triple, fields_eq_triple]
  refine and_congr_right fun hfa => and_congr_right fun _ => and_congr_right fun hfc => ?_
  have h := fun w => @Text.strip_between_iff cs a.toList c.toList w hfa.tight hfc.tight
    (Text.ne_nil_of_ne_empty ha) (Text.ne_nil_of_ne_empty hc)
  constructor
  · rintro ⟨x, y, z, he, hx, hy, hz⟩
    obtain ⟨x', z', he', hx', hz'⟩ := (h _).mp ⟨x, z, he, hx, hz⟩
    exact ⟨x', y, z', he', hx', hy, hz'⟩
  · rintro ⟨x, y, z, he, hx, hy, hz⟩
    obtain ⟨x', z', he', hx', hz'⟩ := (h _).mpr ⟨x, z, he, hx, hz⟩
    exact ⟨x', y, z', he', hx', hy, hz'⟩

/-! ## Sides -/

/-- The two characters between the sides of a rule. -/
def arrow : List Char := ['-', '>']

theorem cutArrow?_cons {c : Char} {cs : List Char} : cutArrow? (c :: cs) =
    if arrow <+: c :: cs then some ([], cs.tail)
    else (cutArrow? cs).map fun sides => (c :: sides.1, sides.2) := by
  rw [cutArrow?.eq_def]
  split
  · next h => cases h
  · next rest h =>
    cases h
    rw [if_pos (by simp [arrow])]
    rfl
  · next c' rest hne h =>
    cases h
    rw [if_neg]
    rintro ⟨t, ht⟩
    cases ht
    exact hne _ rfl rfl

/-- A text is not cut exactly if no arrow stands in it. -/
theorem cutArrow?_eq_none {cs : List Char} : cutArrow? cs = none ↔ ¬ arrow <:+: cs := by
  induction cs with
  | nil => simp [cutArrow?, arrow]
  | cons c cs ih =>
    rw [cutArrow?_cons, List.infix_cons_iff]
    by_cases h : arrow <+: c :: cs
    · simp [h]
    · rw [if_neg h, Option.map_eq_none_iff, ih]
      simp [h]

/-- A text is cut where its first arrow stands. -/
theorem cutArrow?_eq_some_iff {cs left right : List Char} : cutArrow? cs = some (left, right) ↔
    cs = left ++ arrow ++ right ∧ ¬ arrow <:+: left := by
  constructor
  · intro h
    refine ⟨by simpa [arrow] using cutArrow?_eq_some h, ?_⟩
    induction cs generalizing left with
    | nil => simp [cutArrow?] at h
    | cons c cs ih =>
      rw [cutArrow?_cons] at h
      by_cases hp : arrow <+: c :: cs
      · rw [if_pos hp] at h
        cases h
        simp [arrow]
      · rw [if_neg hp] at h
        obtain ⟨⟨l, r⟩, hcut, he⟩ := Option.map_eq_some_iff.mp h
        cases he
        rw [List.infix_cons_iff, not_or]
        refine ⟨fun hl => hp (hl.trans ?_), ih hcut⟩
        rw [cutArrow?_eq_some hcut]
        exact List.prefix_append (c :: l) _
  · rintro ⟨rfl, hn⟩
    induction left with
    | nil => rfl
    | cons c left ih =>
      rw [List.infix_cons_iff, not_or] at hn
      rw [List.cons_append, List.cons_append, cutArrow?_cons, if_neg, ih hn.2, Option.map_some]
      -- an arrow at the beginning would stand in the left side, for the two do not overlap
      rintro ⟨t, ht⟩
      cases left with
      | nil => simp [arrow] at ht
      | cons d left =>
        cases ht
        exact hn.1 ⟨left, rfl⟩

/-- The sides are what stands around the only arrow. -/
theorem sides?_eq_some {cs left right : List Char} : sides? cs = some (left, right) ↔
    cs = left ++ arrow ++ right ∧ ¬ arrow <:+: left ∧ ¬ arrow <:+: right := by
  rw [← and_assoc, ← cutArrow?_eq_some_iff]
  unfold sides?
  constructor
  · intro h
    split at h
    · next l r hcut =>
      obtain ⟨hr, h⟩ := Option.ite_none_right_eq_some.mp h
      cases h
      exact ⟨hcut, cutArrow?_eq_none.mp (by simpa using hr)⟩
    · cases h
  · rintro ⟨hcut, hr⟩
    rw [hcut]
    exact if_pos (by simpa using cutArrow?_eq_none.mpr hr)

/-- A text without a character stands in a text around that character on one side of it. -/
theorem infix_append_cons {l a b : List Char} {c : Char} (hc : c ∉ l) :
    l <:+: a ++ c :: b ↔ l <:+: a ∨ l <:+: b := by
  constructor
  · rintro ⟨s, t, h⟩
    rcases List.append_eq_append_iff.mp h with ⟨a', ha, -⟩ | ⟨c', hs, ht⟩
    · exact Or.inl ⟨s, a', ha.symm⟩
    · cases c' with
      | nil => exact Or.inl ⟨s, [], by simpa using hs⟩
      | cons d c' =>
        -- the text ends after the character, so it begins after it
        cases ht
        rcases List.append_eq_append_iff.mp hs with ⟨a', -, hl⟩ | ⟨d', -, hl⟩
        · exact absurd (by simp [hl]) hc
        · cases d' with
          | nil => exact absurd (by rw [← show c :: c' = l from hl]; simp) hc
          | cons e d' =>
            cases hl
            exact Or.inr ⟨d', t, by simp⟩
  · rintro (h | h)
    · exact h.trans (List.prefix_append _ _).isInfix
    · exact h.trans ((List.suffix_cons _ _).trans (List.suffix_append _ _)).isInfix

theorem not_arrow_of_allBlank {p : List Char} (hp : Text.AllBlank p) : ¬ arrow <:+: p := by
  intro h
  have hm : '-' ∈ p := h.subset (by simp [arrow])
  exact hp.not_mem (by decide) hm

/-- White space around a text makes no arrow. -/
theorem Text.Padded.arrow_infix_iff {f cs : List Char} (h : Text.Padded f cs) :
    arrow <:+: cs ↔ arrow <:+: f := by
  obtain ⟨p, q, hp, hq, rfl⟩ := h
  have hblank : ∀ {w : List Char}, Text.AllBlank w → ∀ c ∈ w, c ∉ arrow := by
    intro w hw c hc hm
    have hb := hw c hc
    simp only [arrow, List.mem_cons, List.not_mem_nil, or_false] at hm
    rcases hm with rfl | rfl
    · exact absurd hb (by decide)
    · exact absurd hb (by decide)
  have hright : arrow <:+: p ++ f ++ q ↔ arrow <:+: p ++ f := by
    cases q with
    | nil => rw [List.append_nil]
    | cons c q =>
      have hq' : Text.AllBlank q := fun d hd => hq d (List.mem_cons_of_mem _ hd)
      rw [infix_append_cons (hblank hq c List.mem_cons_self)]
      simp [not_arrow_of_allBlank hq']
  rw [hright]
  rcases List.eq_nil_or_concat p with rfl | ⟨p, c, rfl⟩
  · rw [List.nil_append]
  · rw [List.concat_eq_append] at hp ⊢
    have hp' : Text.AllBlank p := fun d hd => hp d (List.mem_append_left _ hd)
    rw [List.append_assoc, List.singleton_append, infix_append_cons (hblank hp c (by simp))]
    simp [not_arrow_of_allBlank hp']

theorem comma_not_mem_arrow : ',' ∉ arrow := by decide

/-- An arrow in a text with one comma is in one of its fields. -/
theorem arrow_infix_pair {cs : List Char} {a b : String} (h : fields cs = [a, b]) :
    arrow <:+: cs ↔ arrow <:+: a.toList ∨ arrow <:+: b.toList := by
  obtain ⟨-, -, x, y, rfl, hx, hy⟩ := fields_eq_pair.mp h
  rw [List.append_assoc, List.singleton_append, infix_append_cons comma_not_mem_arrow,
    hx.arrow_infix_iff, hy.arrow_infix_iff]

/-- An arrow in a text with two commas is in one of its fields. -/
theorem arrow_infix_triple {cs : List Char} {a b c : String} (h : fields cs = [a, b, c]) :
    arrow <:+: cs ↔ arrow <:+: a.toList ∨ arrow <:+: b.toList ∨ arrow <:+: c.toList := by
  obtain ⟨-, -, -, x, y, z, rfl, hx, hy, hz⟩ := fields_eq_triple.mp h
  simp only [List.append_assoc, List.cons_append, List.nil_append]
  rw [infix_append_cons comma_not_mem_arrow, infix_append_cons comma_not_mem_arrow,
    hx.arrow_infix_iff, hy.arrow_infix_iff, hz.arrow_infix_iff]

end TapeMachine
