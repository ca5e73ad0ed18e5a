import TapeMachine.SemanticError
import TapeMachine.Table

/-!
# Alphabets

The letters that a machine knows. An alphabet always holds the blank, which stands first; the other
letters follow in the order in which they are first given.

## Main statements

* `Alphabet.nodup_ofLetters`, `Alphabet.nodup_of_ofItems` — no letter stands twice
* `Alphabet.mem_ofLetters` — the letters are the blank and the given ones
* `Alphabet.ofItems_eq_ok` — the alphabet of items is that of the letters that they give
* `Alphabet.ofItems_itemsOf_join` — an alphabet is given again by the text of its letters
* `Alphabet.of_ofItems` — an alphabet holds single characters, the blank but not the wildcard
-/

namespace TapeMachine

/-- The letters of a machine. -/
abbrev Alphabet := List Symbol

namespace Alphabet

/-! ## Single letters -/

/-- The letter that an item gives: a text of one character, but not the wildcard. -/
def letter : Json → Except SemanticError Symbol
  | .string s =>
    if s.length ≠ 1 then .error ⟨none, .badLetter (.string s)⟩
    else if s = Symbol.wildcard then .error ⟨none, .wildcardLetter⟩
    else .ok s
  | item => .error ⟨none, .badLetter item⟩

/-- The letters that items give, up to the first that gives none. -/
def letters : List Json → Except SemanticError (List Symbol)
  | [] => .ok []
  | item :: rest =>
    match letter item with
    | .error e => .error e
    | .ok l => (letters rest).map (l :: ·)

/-- Only a text of one character gives a letter: itself, unless it is the wildcard. -/
theorem letter_eq_ok {item : Json} {l : Symbol} :
    letter item = .ok l ↔ item = .string l ∧ l.length = 1 ∧ l ≠ Symbol.wildcard := by
  cases item with
  | string s =>
    simp only [letter, Json.string.injEq]
    constructor
    · intro h
      by_cases h1 : s.length = 1
      · by_cases h2 : s = Symbol.wildcard
        · rw [if_neg (Decidable.not_not.mpr h1), if_pos h2] at h
          cases h
        · simp only [h1, h2, ne_eq, not_true_eq_false, if_false, Except.ok.injEq] at h
          exact ⟨h, h ▸ h1, h ▸ h2⟩
      · simp [h1] at h
    · rintro ⟨rfl, h1, h2⟩
      simp [h1, h2]
  | _ => simp [letter]

/-- The letters that items give are those of the items. -/
theorem of_letters : ∀ {items : List Json} {ls : List Symbol}, letters items = .ok ls →
    items = ls.map Json.string ∧ ∀ l ∈ ls, l.length = 1 ∧ l ≠ Symbol.wildcard
  | [], ls, h => by
    cases h
    simp
  | item :: rest, ls, h => by
    unfold letters at h
    cases hl : letter item with
    | error e => simp [hl] at h
    | ok l =>
      cases hr : letters rest with
      | error e => simp [hl, hr, Except.map] at h
      | ok ls' =>
        simp only [hl, hr, Except.map, Except.ok.injEq] at h
        subst h
        obtain ⟨rfl, hg⟩ := letter_eq_ok.mp hl
        obtain ⟨rfl, hall⟩ := of_letters hr
        refine ⟨rfl, ?_⟩
        intro x hx
        rcases List.mem_cons.mp hx with rfl | hx
        · exact hg
        · exact hall x hx

/-- Letters given as texts are read as they are. -/
theorem letters_map_string : ∀ {ls : List Symbol},
    (∀ l ∈ ls, l.length = 1 ∧ l ≠ Symbol.wildcard) → letters (ls.map Json.string) = .ok ls
  | [], _ => rfl
  | l :: ls, h => by
    have hl : letter (.string l) = .ok l := letter_eq_ok.mpr ⟨rfl, h l List.mem_cons_self⟩
    have ih := letters_map_string fun x hx => h x (List.mem_cons_of_mem _ hx)
    simp [letters, hl, ih, Except.map]

/-! ## Alphabets -/

/-- The alphabet with a letter; a letter that it has already stays in its place. -/
def addLetter (a : Alphabet) (l : Symbol) : Alphabet := if l ∈ a then a else a ++ [l]

/-- The alphabet of given letters: the blank, then each other letter once, in order. -/
def ofLetters (ls : List Symbol) : Alphabet := ls.foldl addLetter [Symbol.blank]

def ofItems (items : List Json) : Except SemanticError Alphabet := (letters items).map ofLetters

/-- The items of a text: one for each character. -/
def itemsOf (s : String) : List Json := (symbolsOf s).map Json.string

theorem nodup_addLetter {a : Alphabet} {l : Symbol} (h : a.Nodup) : (addLetter a l).Nodup := by
  unfold addLetter
  split
  · exact h
  · next hl => exact nodup_append_singleton h hl

theorem nodup_foldl_addLetter : ∀ (ls : List Symbol) {a : Alphabet}, a.Nodup →
    (ls.foldl addLetter a).Nodup
  | [], _, h => h
  | _ :: rest, _, h => nodup_foldl_addLetter rest (nodup_addLetter h)

theorem nodup_ofLetters (ls : List Symbol) : (ofLetters ls).Nodup :=
  nodup_foldl_addLetter ls (by simp)

theorem mem_addLetter {a : Alphabet} {l x : Symbol} : x ∈ addLetter a l ↔ x ∈ a ∨ x = l := by
  unfold addLetter
  split
  · rename_i h
    exact ⟨Or.inl, fun hx => hx.elim id fun he => he ▸ h⟩
  · simp

theorem mem_foldl_addLetter {x : Symbol} : ∀ {ls : List Symbol} {a : Alphabet},
    x ∈ ls.foldl addLetter a ↔ x ∈ a ∨ x ∈ ls
  | [], a => by simp
  | l :: rest, a => by
    rw [List.foldl_cons, mem_foldl_addLetter, mem_addLetter, List.mem_cons, or_assoc]

theorem mem_ofLetters {ls : List Symbol} {x : Symbol} :
    x ∈ ofLetters ls ↔ x = Symbol.blank ∨ x ∈ ls := by
  simp [ofLetters, mem_foldl_addLetter]

/-- The alphabet of items is that of the letters that they give. -/
theorem ofItems_eq_ok {items : List Json} {a : Alphabet} :
    ofItems items = .ok a ↔ ∃ ls, letters items = .ok ls ∧ a = ofLetters ls := by
  unfold ofItems
  cases letters items with
  | error e => simp [Except.map]
  | ok ls => simp [Except.map, eq_comm]

theorem nodup_of_ofItems {items : List Json} {a : Alphabet} (h : ofItems items = .ok a) : a.Nodup := by
  obtain ⟨ls, -, rfl⟩ := ofItems_eq_ok.mp h
  exact nodup_ofLetters ls

/-- An alphabet of items holds single characters, the blank among them and not the wildcard. -/
theorem of_ofItems {items : List Json} {a : Alphabet} (h : ofItems items = .ok a) :
    Symbol.blank ∈ a ∧ ∀ l ∈ a, l.length = 1 ∧ l ≠ Symbol.wildcard := by
  obtain ⟨ls, hl, rfl⟩ := ofItems_eq_ok.mp h
  refine ⟨mem_ofLetters.mpr (Or.inl rfl), ?_⟩
  intro l hm
  rcases mem_ofLetters.mp hm with rfl | hm
  · decide
  · exact (of_letters hl).2 l hm

/-! ## Alphabets given again -/

theorem foldl_addLetter_of_nodup : ∀ {ls : List Symbol} {a : Alphabet}, (a ++ ls).Nodup →
    ls.foldl addLetter a = a ++ ls
  | [], a, _ => by simp
  | l :: rest, a, h => by
    have hl : l ∉ a := fun hm => (List.nodup_append.mp h).2.2 l hm l List.mem_cons_self rfl
    have hadd : addLetter a l = a ++ [l] := if_neg hl
    rw [List.foldl_cons, hadd, foldl_addLetter_of_nodup]
    · simp
    · simpa using h

theorem prefix_foldl_addLetter : ∀ (ls : List Symbol) (a : Alphabet), a <+: ls.foldl addLetter a
  | [], _ => List.prefix_rfl
  | l :: rest, a => by
    refine List.IsPrefix.trans ?_ (prefix_foldl_addLetter rest (addLetter a l))
    unfold addLetter
    split
    · exact List.prefix_rfl
    · exact List.prefix_append _ _

/-- An alphabet is the alphabet of its own letters. -/
theorem ofLetters_ofLetters (ls : List Symbol) : ofLetters (ofLetters ls) = ofLetters ls := by
  obtain ⟨rest, hr⟩ := prefix_foldl_addLetter ls [Symbol.blank]
  have hn : ([Symbol.blank] ++ rest).Nodup := by
    rw [hr]
    exact nodup_ofLetters ls
  have hl : ofLetters ls = Symbol.blank :: rest := hr.symm
  rw [hl, ofLetters, List.foldl_cons]
  exact foldl_addLetter_of_nodup hn

theorem ofItems_itemsOf_join {items : List Json} {a : Alphabet} (h : ofItems items = .ok a) :
    ofItems (itemsOf (String.join a)) = .ok a := by
  have ha := (of_ofItems h).2
  obtain ⟨ls, -, rfl⟩ := ofItems_eq_ok.mp h
  rw [itemsOf, symbolsOf_join fun l hl => (ha l hl).1]
  exact ofItems_eq_ok.mpr ⟨ofLetters ls, letters_map_string ha, (ofLetters_ofLetters ls).symm⟩

end Alphabet

end TapeMachine
