import TapeMachine.Proofs.Roundtrip.Fields

/-!
# Rules read back

The grammar of a rule, and that the text of a rule is in it. A well-formed rule is one whose text
the reader takes apart into the same fields: its names and symbols have no commas in them and no
white space at their ends, and its names have no arrow in them.

## Main statements

* `Transition.read_eq_ok`, `Rule.read_eq_ok` — the lines that read as a rule
* `Rule.read_text` — a well-formed rule reads back from its text
* `Rule.wellFormed_of_read` — only well-formed rules are read
-/

namespace TapeMachine

/-! ## Right-hand sides -/

theorem isField_token (m : Move) : IsField m.token.toList := by
  have htoken : ∀ c : Char, Text.isBlank c = false → c ≠ ',' → IsField [c] := by
    intro c hc hne
    exact ⟨Text.tight_singleton.mpr hc, by simpa using hne.symm⟩
  cases m with
  | left => exact htoken 'l' (by decide) (by decide)
  | right => exact htoken 'r' (by decide) (by decide)
  | stay => exact htoken 's' (by decide) (by decide)

theorem token_ne_empty (m : Move) : m.token ≠ "" := by cases m <;> decide

theorem ne_empty_of_length {s : String} (h : s.length = 1) : s ≠ "" := by
  rintro rfl
  cases h

namespace Transition

/-- A right-hand side with fields that can be told apart. -/
structure WellFormed (t : Transition) : Prop where
  next_ne : t.next ≠ ""
  next : IsField t.next.toList
  write_length : t.write.length = 1
  write : IsField t.write.toList

def fieldList (t : Transition) : List String := [t.next, t.write, t.move.token]

theorem wellFormed_of_fields {cs : List Char} {t : Transition} (h : fields cs = t.fieldList)
    (hn : t.next ≠ "") (hw : t.write.length = 1) : t.WellFormed := by
  obtain ⟨hfn, hfw, -⟩ := fields_eq_triple.mp h
  exact ⟨hn, hfn, hw, hfw⟩

/-- A text reads as the right-hand side with its fields. -/
theorem read_eq_ok {text : String} {line : Int} {t : Transition} :
    Transition.read text line = .ok t ↔
      t.line = line ∧ t.WellFormed ∧ fields text.toList = t.fieldList := by
  unfold Transition.read
  constructor
  · intro h
    split at h
    · next next write move hf =>
      by_cases hn : next = ""
      · simp [hn] at h
      · by_cases hw : write.length = 1
        · cases hm : Move.ofToken? move with
          | none => simp [hn, hw, hm] at h
          | some m =>
            simp only [hn, hw, hm, if_false, ne_eq, not_true_eq_false, Except.ok.injEq] at h
            subst h
            have he : fields text.toList = [next, write, m.token] := by
              rw [hf, Move.token_of_ofToken? hm]
            exact ⟨rfl, wellFormed_of_fields he hn hw, he⟩
        · simp [hn, hw] at h
    · cases h
  · rintro ⟨rfl, hw, hf⟩
    rw [hf, fieldList]
    simp only [hw.next_ne, hw.write_length, Move.ofToken?_token, if_false, ne_eq,
      not_true_eq_false]

end Transition

/-! ## Whole rules -/

namespace Rule

/-- A rule with fields that can be told apart. -/
structure WellFormed (r : Rule) : Prop where
  state_ne : r.state ≠ ""
  state : IsField r.state.toList
  state_arrow : ¬ arrow <:+: r.state.toList
  trigger_length : r.trigger.length = 1
  trigger : IsField r.trigger.toList
  transition : r.transition.WellFormed
  next_arrow : ¬ arrow <:+: r.transition.next.toList

theorem not_arrow_of_length {s : String} (h : s.length = 1) : ¬ arrow <:+: s.toList := by
  intro ha
  have hl := ha.length_le
  rw [String.length_toList, h] at hl
  simp [arrow] at hl

/-- The sides of a well-formed rule have no arrow in them. -/
theorem WellFormed.not_arrow {r : Rule} (h : r.WellFormed) {left right : List Char}
    (hl : fields left = [r.state, r.trigger]) (hr : fields right = r.transition.fieldList) :
    ¬ arrow <:+: left ∧ ¬ arrow <:+: right := by
  have ht : r.transition.move.token.length = 1 := by cases r.transition.move <;> decide
  rw [arrow_infix_pair hl, arrow_infix_triple hr]
  simp only [not_or]
  exact ⟨⟨h.state_arrow, not_arrow_of_length h.trigger_length⟩, h.next_arrow,
    not_arrow_of_length h.transition.write_length, not_arrow_of_length ht⟩

/-- A line reads as the rule with its fields on both sides of its only arrow. -/
theorem read_eq_ok {text : String} {line : Int} {r : Rule} : Rule.read text line = .ok r ↔
    r.transition.line = line ∧ r.WellFormed ∧ ∃ left right,
      text.toList = left ++ arrow ++ right ∧ fields left = [r.state, r.trigger] ∧
      fields right = r.transition.fieldList := by
  unfold Rule.read
  simp only
  constructor
  · intro h
    split at h
    · cases h
    · next left right hsides =>
      obtain ⟨htext, hal, har⟩ := sides?_eq_some.mp hsides
      split at h
      · next state trigger hf =>
        by_cases hs : state = ""
        · simp [hs] at h
        · by_cases ht : trigger.length = 1
          · simp only [hs, ht, if_false, ne_eq, not_true_eq_false] at h
            cases hread : Transition.read (String.ofList (Text.strip right)) line with
            | error e => simp [hread, Except.map] at h
            | ok t =>
              simp only [hread, Except.map, Except.ok.injEq] at h
              subst h
              obtain ⟨hline, hw, hfr⟩ := Transition.read_eq_ok.mp hread
              rw [String.toList_ofList, Transition.fieldList,
                fields_strip_eq_triple hw.next_ne (token_ne_empty _)] at hfr
              have hfl := (fields_strip_eq_pair hs (ne_empty_of_length ht)).mp hf
              obtain ⟨hfs, hft, -⟩ := fields_eq_pair.mp hfl
              rw [arrow_infix_pair hfl, not_or] at hal
              rw [arrow_infix_triple hfr, not_or] at har
              exact ⟨hline, ⟨hs, hfs, hal.1, ht, hft, hw, har.1⟩, left, right, htext, hfl, hfr⟩
          · simp [hs, ht] at h
      · cases h
  · rintro ⟨rfl, hw, left, right, htext, hl, hr⟩
    obtain ⟨hal, har⟩ := hw.not_arrow hl hr
    have hread : Transition.read (String.ofList (Text.strip right)) r.transition.line =
        .ok r.transition := by
      refine Transition.read_eq_ok.mpr ⟨rfl, hw.transition, ?_⟩
      rw [String.toList_ofList]
      exact (fields_strip_eq_triple hw.transition.next_ne (token_ne_empty _)).mpr hr
    rw [sides?_eq_some.mpr ⟨htext, hal, har⟩]
    simp only
    rw [(fields_strip_eq_pair hw.state_ne (ne_empty_of_length hw.trigger_length)).mpr hl]
    simp only [hw.state_ne, hw.trigger_length, hread, if_false, ne_eq, not_true_eq_false]
    rfl

/-- Only well-formed rules are read. -/
theorem wellFormed_of_read {text : String} {line : Int} {r : Rule}
    (h : Rule.read text line = .ok r) : r.WellFormed := (read_eq_ok.mp h).2.1

/-! ## Texts -/

def onLine (r : Rule) (line : Int) : Rule :=
  { r with transition := { r.transition with line := line } }

@[simp] theorem state_onLine (r : Rule) (line : Int) : (r.onLine line).state = r.state := rfl

@[simp] theorem trigger_onLine (r : Rule) (line : Int) : (r.onLine line).trigger = r.trigger := rfl

@[simp] theorem action_onLine (r : Rule) (line : Int) :
    (r.onLine line).transition.action = r.transition.action := rfl

theorem WellFormed.onLine {r : Rule} (h : r.WellFormed) (line : Int) : (r.onLine line).WellFormed :=
  ⟨h.state_ne, h.state, h.state_arrow, h.trigger_length, h.trigger,
    ⟨h.transition.next_ne, h.transition.next, h.transition.write_length, h.transition.write⟩,
    h.next_arrow⟩

theorem toList_text (r : Rule) : r.text.toList =
    (r.state.toList ++ [','] ++ ([' '] ++ r.trigger.toList ++ [' '])) ++ arrow ++
      (([' '] ++ r.transition.next.toList) ++
        ([','] ++ ([' '] ++ r.transition.write.toList) ++ [',']) ++
        ([' '] ++ r.transition.move.token.toList)) := by
  unfold text Transition.text
  simp only [String.toList_append, arrow]
  simp

/-- A well-formed rule reads back from its text, on whatever line that stands. -/
theorem read_text {r : Rule} (h : r.WellFormed) (line : Int) :
    Rule.read r.text line = .ok (r.onLine line) := by
  have hspace : ∀ f : List Char, Text.Padded f ([' '] ++ f) := fun f =>
    (Text.Padded.refl f).append_left Text.allBlank_space
  refine read_eq_ok.mpr ⟨rfl, h.onLine line, _, _, toList_text r, ?_, ?_⟩
  · refine fields_eq_pair.mpr ⟨h.state, h.trigger, _, _, rfl, .refl _, ?_⟩
    exact (hspace _).append_right Text.allBlank_space
  · exact fields_eq_triple.mpr ⟨h.transition.next, h.transition.write, isField_token _, _, _, _,
      rfl, hspace _, hspace _, hspace _⟩

/-- A rule whose text stands on one line. -/
def OneLine (r : Rule) : Prop := '\n' ∉ r.text.toList

/-- A rule that was read from one line can be written on one line. -/
theorem oneLine_of_read {text : String} {line : Int} {r : Rule} (h : Rule.read text line = .ok r)
    (htext : '\n' ∉ text.toList) : r.OneLine := by
  obtain ⟨-, -, left, right, he, hl, hr⟩ := read_eq_ok.mp h
  rw [he, List.mem_append, List.mem_append, not_or, not_or] at htext
  obtain ⟨⟨hnl, -⟩, hnr⟩ := htext
  obtain ⟨hs, ht⟩ := subset_of_fields_pair hl
  obtain ⟨hn, hw, hm⟩ := subset_of_fields_triple hr
  rw [OneLine, toList_text]
  simp only [List.mem_append, not_or]
  have hspace : '\n' ∉ [' '] := by decide
  have hcomma : '\n' ∉ [','] := by decide
  exact ⟨⟨⟨⟨fun h => hnl (hs h), hcomma⟩, ⟨hspace, fun h => hnl (ht h)⟩, hspace⟩, by decide⟩,
    ⟨⟨hspace, fun h => hnr (hn h)⟩, ⟨hcomma, hspace, fun h => hnr (hw h)⟩, hcomma⟩,
    hspace, fun h => hnr (hm h)⟩

end Rule

end TapeMachine
