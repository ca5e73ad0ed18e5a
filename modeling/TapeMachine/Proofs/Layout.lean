import TapeMachine.Proofs.Roundtrip.Rule

/-!
# The layout of a line

A line with a rule is its fields, its commas and its arrow, with white space between them. The reader
finds them by cutting and stripping; here the line is put together from them. What the reader reads
are the lines that can be put together so, and there is only one way to do it.

## Main statements

* `existsUnique_arrow_iff` — an arrow is the only one if none stands on its sides
* `Layout.Spells.read`, `Layout.exists_spells` — the lines that read as a rule
* `Layout.Spells.unique` — a line has one layout
-/

namespace TapeMachine

/-! ## The only arrow -/

theorem infix_of_prefix_drop {l cs : List Char} {i : Nat} (h : l <+: cs.drop i) : l <:+: cs :=
  h.isInfix.trans (List.drop_suffix i cs).isInfix

theorem exists_prefix_drop {l cs : List Char} (h : l <:+: cs) :
    ∃ i ≤ cs.length, l <+: cs.drop i := by
  obtain ⟨s, t, rfl⟩ := h
  exact ⟨s.length, by simp, t, by simp⟩

/-- Where an arrow stands in a text around an arrow: there, or in a side. -/
theorem prefix_drop_sides {left right : List Char} {i : Nat}
    (h : arrow <+: (left ++ arrow ++ right).drop i) :
    i = left.length ∨ i < left.length ∧ arrow <:+: left ∨ left.length + 2 ≤ i ∧ arrow <:+: right := by
  rw [List.append_assoc] at h
  rcases Nat.lt_trichotomy i left.length with hi | hi | hi
  · refine Or.inr (Or.inl ⟨hi, ?_⟩)
    rw [List.drop_append_of_le_length hi.le] at h
    obtain ⟨c, rest, hd⟩ := List.exists_cons_of_ne_nil
      (fun hn : left.drop i = [] => absurd (List.drop_eq_nil_iff.mp hn) (by omega))
    rw [hd] at h
    cases rest with
    | nil =>
      -- the last character of the side and the first of the arrow are no arrow
      obtain ⟨t, ht⟩ := h
      simp [arrow] at ht
    | cons d rest =>
      refine infix_of_prefix_drop (i := i) ?_
      obtain ⟨t, ht⟩ := h
      simp only [arrow, List.cons_append, List.nil_append, List.cons.injEq] at ht
      obtain ⟨rfl, rfl, -⟩ := ht
      rw [hd]
      exact ⟨rest, rfl⟩
  · exact Or.inl hi
  · right
    right
    obtain ⟨j, rfl⟩ := Nat.exists_eq_add_of_lt hi
    rw [Nat.add_assoc, List.drop_length_add_append] at h
    cases j with
    | zero =>
      obtain ⟨t, ht⟩ := h
      simp [arrow] at ht
    | succ j => exact ⟨by omega, infix_of_prefix_drop (i := j) (by simpa [arrow] using h)⟩

/-- An arrow is the only one if none stands on its sides. -/
theorem existsUnique_arrow_iff {left right : List Char} :
    (∃! i, arrow <+: (left ++ arrow ++ right).drop i) ↔
      ¬ arrow <:+: left ∧ ¬ arrow <:+: right := by
  have hmid : arrow <+: (left ++ arrow ++ right).drop left.length := ⟨right, by simp⟩
  constructor
  · rintro ⟨i, -, hi⟩
    have huniq : ∀ j, arrow <+: (left ++ arrow ++ right).drop j → j = left.length := fun j hj =>
      (hi j hj).trans (hi _ hmid).symm
    constructor
    · intro h
      obtain ⟨j, hj, hp⟩ := exists_prefix_drop h
      have hlong : j + 2 ≤ left.length := by
        have hl := hp.length_le
        rw [List.length_drop] at hl
        simp only [arrow, List.length_cons, List.length_nil] at hl
        omega
      have := huniq j (by
        rw [List.append_assoc, List.drop_append_of_le_length hj]
        exact hp.trans (List.prefix_append _ _))
      omega
    · intro h
      obtain ⟨j, -, hp⟩ := exists_prefix_drop h
      have := huniq (left.length + (j + 2)) (by
        rw [List.append_assoc, List.drop_length_add_append]
        simpa [arrow] using hp)
      omega
  · rintro ⟨hl, hr⟩
    refine ⟨left.length, hmid, ?_⟩
    intro i hi
    rcases prefix_drop_sides hi with h | ⟨-, h⟩ | ⟨-, h⟩
    · exact h
    · exact absurd h hl
    · exact absurd h hr

/-! ## Layouts -/

/-- The fields of a rule and what stands before, between and after them on a line. -/
structure Layout where
  p0 : List Char
  state : String
  p1 : List Char
  p2 : List Char
  trigger : Symbol
  p3 : List Char
  p4 : List Char
  next : String
  p5 : List Char
  p6 : List Char
  write : Symbol
  p7 : List Char
  p8 : List Char
  move : Move
  p9 : List Char

namespace Layout

variable {l l' : Layout} {text : String} {line : Int}

/-- What stands before, between and after the fields. -/
def gaps (l : Layout) : List (List Char) :=
  [l.p0, l.p1, l.p2, l.p3, l.p4, l.p5, l.p6, l.p7, l.p8, l.p9]

/-- The side that says when the rule applies. -/
def left (l : Layout) : List Char :=
  (l.p0 ++ l.state.toList ++ l.p1) ++ [','] ++ (l.p2 ++ l.trigger.toList ++ l.p3)

/-- The side that says what the rule does. -/
def right (l : Layout) : List Char :=
  (l.p4 ++ l.next.toList ++ l.p5) ++ ([','] ++ (l.p6 ++ l.write.toList ++ l.p7) ++ [',']) ++
    (l.p8 ++ l.move.token.toList ++ l.p9)

def chars (l : Layout) : List Char := l.left ++ arrow ++ l.right

/-- The rule on a line of the program. -/
def rule (l : Layout) (line : Int) : Rule := ⟨l.state, l.trigger, ⟨l.next, l.write, l.move, line⟩⟩

/-- The grammar of a line: white space around names that have none at their ends and around single
characters, no commas and no arrows but those between the fields. -/
structure Proper (l : Layout) : Prop where
  gaps : ∀ p ∈ l.gaps, Text.AllBlank p
  state_ne : l.state ≠ ""
  state_tight : Text.Tight l.state.toList
  trigger : ∃ c, l.trigger.toList = [c] ∧ Text.isBlank c = false
  next_ne : l.next ≠ ""
  next_tight : Text.Tight l.next.toList
  write : ∃ c, l.write.toList = [c] ∧ Text.isBlank c = false
  no_comma : ∀ f ∈ [l.state, l.trigger, l.next, l.write], ',' ∉ f.toList
  arrow : ∃! i, arrow <+: l.chars.drop i

/-- A line is laid out in a way that the grammar allows. -/
def Spells (l : Layout) (text : String) : Prop := l.Proper ∧ text.toList = l.chars

/-! ## Reading -/

theorem isField_of_character {s : String} {c : Char} (hs : s.toList = [c])
    (hc : Text.isBlank c = false) (hn : ',' ∉ s.toList) : s.length = 1 ∧ IsField s.toList := by
  refine ⟨by rw [← String.length_toList, hs]; rfl, ?_, hn⟩
  rw [hs]
  exact Text.tight_singleton.mpr hc

theorem exists_character {s : String} (hl : s.length = 1) (hf : IsField s.toList) :
    ∃ c, s.toList = [c] ∧ Text.isBlank c = false := by
  rw [← String.length_toList, List.length_eq_one_iff] at hl
  obtain ⟨c, hc⟩ := hl
  exact ⟨c, hc, Text.tight_singleton.mp (hc ▸ hf.tight)⟩

namespace Proper

theorem trigger_field (h : l.Proper) : l.trigger.length = 1 ∧ IsField l.trigger.toList := by
  obtain ⟨c, hc, hb⟩ := h.trigger
  exact isField_of_character hc hb (h.no_comma _ (by simp))

theorem write_field (h : l.Proper) : l.write.length = 1 ∧ IsField l.write.toList := by
  obtain ⟨c, hc, hb⟩ := h.write
  exact isField_of_character hc hb (h.no_comma _ (by simp))

theorem state_field (h : l.Proper) : IsField l.state.toList :=
  ⟨h.state_tight, h.no_comma _ (by simp)⟩

theorem next_field (h : l.Proper) : IsField l.next.toList :=
  ⟨h.next_tight, h.no_comma _ (by simp)⟩

theorem padded (h : l.Proper) {p q : List Char} (hp : p ∈ l.gaps) (hq : q ∈ l.gaps)
    (f : List Char) : Text.Padded f (p ++ f ++ q) := ⟨p, q, h.gaps p hp, h.gaps q hq, rfl⟩

theorem fields_left (h : l.Proper) : fields l.left = [l.state, l.trigger] :=
  fields_eq_pair.mpr ⟨h.state_field, h.trigger_field.2, _, _, rfl,
    h.padded (by simp [Layout.gaps]) (by simp [Layout.gaps]) _,
    h.padded (by simp [Layout.gaps]) (by simp [Layout.gaps]) _⟩

theorem fields_right (h : l.Proper) : fields l.right = [l.next, l.write, l.move.token] :=
  fields_eq_triple.mpr ⟨h.next_field, h.write_field.2, isField_token _, _, _, _, rfl,
    h.padded (by simp [Layout.gaps]) (by simp [Layout.gaps]) _,
    h.padded (by simp [Layout.gaps]) (by simp [Layout.gaps]) _,
    h.padded (by simp [Layout.gaps]) (by simp [Layout.gaps]) _⟩

theorem not_arrow (h : l.Proper) : ¬ TapeMachine.arrow <:+: l.left ∧ ¬ TapeMachine.arrow <:+: l.right :=
  existsUnique_arrow_iff.mp h.arrow

theorem wellFormed (h : l.Proper) (line : Int) : (l.rule line).WellFormed := by
  obtain ⟨hl, hr⟩ := h.not_arrow
  rw [arrow_infix_pair h.fields_left, not_or] at hl
  rw [arrow_infix_triple h.fields_right, not_or] at hr
  exact ⟨h.state_ne, h.state_field, hl.1, h.trigger_field.1, h.trigger_field.2,
    ⟨h.next_ne, h.next_field, h.write_field.1, h.write_field.2⟩, hr.1⟩

end Proper

/-- A line that is laid out reads as its rule. -/
theorem Spells.read (h : l.Spells text) (line : Int) : Rule.read text line = .ok (l.rule line) :=
  Rule.read_eq_ok.mpr ⟨rfl, h.1.wellFormed line, l.left, l.right, h.2, h.1.fields_left,
    h.1.fields_right⟩

/-- A line that reads as a rule is laid out. -/
theorem exists_spells {r : Rule} (h : Rule.read text line = .ok r) :
    ∃ l : Layout, l.Spells text ∧ l.rule line = r := by
  obtain ⟨rfl, hw, left, right, htext, hl, hr⟩ := Rule.read_eq_ok.mp h
  have harrow := hw.not_arrow hl hr
  obtain ⟨-, -, x, y, rfl, ⟨p0, p1, h0, h1, rfl⟩, ⟨p2, p3, h2, h3, rfl⟩⟩ := fields_eq_pair.mp hl
  obtain ⟨-, -, -, x, y, z, rfl, ⟨p4, p5, h4, h5, rfl⟩, ⟨p6, p7, h6, h7, rfl⟩,
    ⟨p8, p9, h8, h9, rfl⟩⟩ := fields_eq_triple.mp hr
  refine ⟨⟨p0, r.state, p1, p2, r.trigger, p3, p4, r.transition.next, p5, p6, r.transition.write,
    p7, p8, r.transition.move, p9⟩, ⟨?_, htext⟩, rfl⟩
  refine ⟨?_, hw.state_ne, hw.state.tight, exists_character hw.trigger_length hw.trigger,
    hw.transition.next_ne, hw.transition.next.tight,
    exists_character hw.transition.write_length hw.transition.write, ?_,
    existsUnique_arrow_iff.mpr harrow⟩
  · simp only [Layout.gaps, List.forall_mem_cons, List.not_mem_nil, false_implies, implies_true,
      and_true]
    exact ⟨h0, h1, h2, h3, h4, h5, h6, h7, h8, h9⟩
  · simp only [List.forall_mem_cons, List.not_mem_nil, false_implies, implies_true, and_true]
    exact ⟨hw.state.no_comma, hw.trigger.no_comma, hw.transition.next.no_comma,
      hw.transition.write.no_comma⟩

/-! ## Only one layout -/

/-- The white space around a text that begins and ends without is told apart from it. -/
theorem padding_unique {p f q p' f' q' : List Char} (hp : Text.AllBlank p) (hq : Text.AllBlank q)
    (hp' : Text.AllBlank p') (hq' : Text.AllBlank q') (hf : Text.Tight f) (hf' : Text.Tight f')
    (hne : f ≠ []) (h : p ++ f ++ q = p' ++ f' ++ q') : p = p' ∧ f = f' ∧ q = q' := by
  have hff : f = f' := by
    rw [← Text.strip_padded hf ⟨p, q, hp, hq, rfl⟩, h]
    exact Text.strip_padded hf' ⟨p', q', hp', hq', rfl⟩
  subst hff
  have hfirst : ∀ {w z : List Char}, Text.AllBlank w → (w ++ f ++ z).takeWhile Text.isBlank = w := by
    intro w z hw
    rw [List.append_assoc, List.takeWhile_append_of_pos hw]
    cases f with
    | nil => exact absurd rfl hne
    | cons c rest =>
      rw [List.cons_append, List.takeWhile_cons_of_neg (by simp [hf.1 c rfl]), List.append_nil]
  have hpp : p = p' := by rw [← hfirst hp, h, hfirst hp']
  subst hpp
  exact ⟨rfl, rfl, List.append_cancel_left h⟩

/-- The parts around commas are told apart. -/
theorem parts_unique {xs ys : List (List Char)} (hx : xs ≠ []) (hxs : ∀ x ∈ xs, ',' ∉ x)
    (hy : ys ≠ []) (hys : ∀ y ∈ ys, ',' ∉ y)
    (h : [','].intercalate xs = [','].intercalate ys) : xs = ys := by
  rw [← (Text.splitOn_eq_iff.mpr ⟨hx, hxs, rfl⟩), h]
  exact Text.splitOn_eq_iff.mpr ⟨hy, hys, rfl⟩

theorem Proper.part_no_comma (h : l.Proper) {p q f : List Char} (hp : p ∈ l.gaps)
    (hq : q ∈ l.gaps) (hf : ',' ∉ f) : ',' ∉ p ++ f ++ q := fun hm =>
  hf (((h.padded hp hq f).mem_iff not_blank_comma).mp hm)

/-- The parts of the left side are told apart. -/
theorem parts_left (h : l.Proper) (h' : l'.Proper) (he : l.left = l'.left) :
    l.p0 ++ l.state.toList ++ l.p1 = l'.p0 ++ l'.state.toList ++ l'.p1 ∧
      l.p2 ++ l.trigger.toList ++ l.p3 = l'.p2 ++ l'.trigger.toList ++ l'.p3 := by
  have hparts : ∀ {k : Layout}, k.Proper → ∀ x ∈ [k.p0 ++ k.state.toList ++ k.p1,
      k.p2 ++ k.trigger.toList ++ k.p3], ',' ∉ x := by
    intro k hk
    simp only [List.forall_mem_cons, List.not_mem_nil, false_implies, implies_true, and_true]
    exact ⟨hk.part_no_comma (by simp [gaps]) (by simp [gaps]) hk.state_field.no_comma,
      hk.part_no_comma (by simp [gaps]) (by simp [gaps]) hk.trigger_field.2.no_comma⟩
  have heq := parts_unique (by simp) (hparts h) (by simp) (hparts h')
    (by simpa [List.intercalate, left] using he)
  simp only [List.cons.injEq, and_true] at heq
  exact heq

/-- The parts of the right side are told apart. -/
theorem parts_right (h : l.Proper) (h' : l'.Proper) (he : l.right = l'.right) :
    l.p4 ++ l.next.toList ++ l.p5 = l'.p4 ++ l'.next.toList ++ l'.p5 ∧
      l.p6 ++ l.write.toList ++ l.p7 = l'.p6 ++ l'.write.toList ++ l'.p7 ∧
      l.p8 ++ l.move.token.toList ++ l.p9 = l'.p8 ++ l'.move.token.toList ++ l'.p9 := by
  have hparts : ∀ {k : Layout}, k.Proper → ∀ x ∈ [k.p4 ++ k.next.toList ++ k.p5,
      k.p6 ++ k.write.toList ++ k.p7, k.p8 ++ k.move.token.toList ++ k.p9], ',' ∉ x := by
    intro k hk
    simp only [List.forall_mem_cons, List.not_mem_nil, false_implies, implies_true, and_true]
    exact ⟨hk.part_no_comma (by simp [gaps]) (by simp [gaps]) hk.next_field.no_comma,
      hk.part_no_comma (by simp [gaps]) (by simp [gaps]) hk.write_field.2.no_comma,
      hk.part_no_comma (by simp [gaps]) (by simp [gaps]) (isField_token k.move).no_comma⟩
  have heq := parts_unique (by simp) (hparts h) (by simp) (hparts h')
    (by simpa [List.intercalate, right] using he)
  simp only [List.cons.injEq, and_true] at heq
  exact heq

/-- Where one layout has a field between white space, another with the same text there has the
same. -/
theorem field_unique (h : l.Proper) (h' : l'.Proper) {p q p' q' : List Char} {f f' : String}
    (hp : p ∈ l.gaps) (hq : q ∈ l.gaps) (hp' : p' ∈ l'.gaps) (hq' : q' ∈ l'.gaps)
    (hf : Text.Tight f.toList) (hf' : Text.Tight f'.toList) (hne : f ≠ "")
    (he : p ++ f.toList ++ q = p' ++ f'.toList ++ q') : p = p' ∧ f = f' ∧ q = q' := by
  obtain ⟨hpp, hff, hqq⟩ := padding_unique (h.gaps p hp) (h.gaps q hq) (h'.gaps p' hp')
    (h'.gaps q' hq') hf hf' (Text.ne_nil_of_ne_empty hne) he
  exact ⟨hpp, String.toList_inj.mp hff, hqq⟩

/-- A line has one layout. -/
theorem Spells.unique (hl : l.Spells text) (hl' : l'.Spells text) : l = l' := by
  obtain ⟨h, ht⟩ := hl
  obtain ⟨h', ht'⟩ := hl'
  have hcut := cutArrow?_eq_some_iff.mpr ⟨ht, h.not_arrow.1⟩
  have hcut' := cutArrow?_eq_some_iff.mpr ⟨ht', h'.not_arrow.1⟩
  rw [hcut, Option.some.injEq, Prod.mk.injEq] at hcut'
  obtain ⟨hstate, htrigger⟩ := parts_left h h' hcut'.1
  obtain ⟨hnext, hwrite, hmove⟩ := parts_right h h' hcut'.2
  obtain ⟨h0, hs, h1⟩ := field_unique h h' (by simp [gaps]) (by simp [gaps]) (by simp [gaps])
    (by simp [gaps]) h.state_tight h'.state_tight h.state_ne hstate
  obtain ⟨h2, htr, h3⟩ := field_unique h h' (by simp [gaps]) (by simp [gaps]) (by simp [gaps])
    (by simp [gaps]) h.trigger_field.2.tight h'.trigger_field.2.tight
    (ne_empty_of_length h.trigger_field.1) htrigger
  obtain ⟨h4, hn, h5⟩ := field_unique h h' (by simp [gaps]) (by simp [gaps]) (by simp [gaps])
    (by simp [gaps]) h.next_tight h'.next_tight h.next_ne hnext
  obtain ⟨h6, hw, h7⟩ := field_unique h h' (by simp [gaps]) (by simp [gaps]) (by simp [gaps])
    (by simp [gaps]) h.write_field.2.tight h'.write_field.2.tight
    (ne_empty_of_length h.write_field.1) hwrite
  obtain ⟨h8, hm, h9⟩ := field_unique h h' (by simp [gaps]) (by simp [gaps]) (by simp [gaps])
    (by simp [gaps]) (isField_token _).tight (isField_token _).tight (token_ne_empty _) hmove
  have hmv : l.move = l'.move := by
    have := Move.ofToken?_token l.move
    rw [hm, Move.ofToken?_token, Option.some.injEq] at this
    exact this.symm
  cases l
  cases l'
  simp only at *
  subst h0 hs h1 h2 htr h3 h4 hn h5 h6 hw h7 h8 hmv h9
  rfl

end Layout

end TapeMachine
