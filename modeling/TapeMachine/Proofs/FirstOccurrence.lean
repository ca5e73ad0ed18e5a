import TapeMachine.Alphabet
import TapeMachine.Proofs.Culprits

/-!
# Alphabets list letters in the order of their first occurrence

Items are taken up one by one, into an alphabet that has only the blank at first. An item that gives no
letter stops this at once, so the error is about the first such item. Otherwise each item leaves the
alphabet as it is or adds a letter at its end, and with every item that is taken up the alphabet is the
normal form of the letters so far. As nothing but the alphabet is kept from one item to the next, an
alphabet stands for the items that it was made of: more items do to it what they do after those.

## Main statements

* `Alphabet.foldlM_give_eq_error` — the error is about the first item that gives no letter
* `Alphabet.IsNormalForm.addLetter` — what one more letter does to a normal form
* `Alphabet.IsNormalForm.unique` — letters have one normal form only
* `Alphabet.ofItems_append` — more items are taken up into the alphabet of those before
* `Alphabet.ofItems_normalizes` — which items give an alphabet, which one, and how alphabets compose
-/

namespace TapeMachine

namespace Alphabet

variable {items rest : List Json} {item : Json} {e : SemanticError} {given : List Symbol}
  {a b : Alphabet}

/-! ## Items that give no letter -/

/-- A text of one character. -/
def IsSingle (item : Json) : Prop := ∃ s, item = .string s ∧ s.length = 1

/-- An item that gives no letter: it is not a text of one character, or it is the wildcard. -/
def IsStray (item : Json) : Prop := ¬IsSingle item ∨ item = .string Symbol.wildcard

/-- The error about an item that gives no letter. -/
inductive Complaint : Json → SemanticError → Prop where
  | notSingle {item : Json} (h : ¬IsSingle item) : Complaint item ⟨none, .badLetter item⟩
  | wildcard : Complaint (.string Symbol.wildcard) ⟨none, .wildcardLetter⟩

theorem Complaint.isStray (h : Complaint item e) : IsStray item := by
  cases h with
  | notSingle h => exact Or.inl h
  | wildcard => exact Or.inr rfl

/-- An item gives a letter or there is an error about it. -/
theorem letter_cases (item : Json) :
    (∃ e, letter item = .error e ∧ Complaint item e) ∨ ∃ l, letter item = .ok l ∧ ¬IsStray item := by
  by_cases hs : IsSingle item
  · obtain ⟨s, rfl, h1⟩ := hs
    by_cases hw : s = Symbol.wildcard
    · subst hw
      exact Or.inl ⟨_, rfl, .wildcard⟩
    · refine Or.inr ⟨s, letter_eq_ok.mpr ⟨rfl, h1, hw⟩, ?_⟩
      rintro (hn | heq)
      · exact hn ⟨s, rfl, h1⟩
      · exact hw (Json.string.inj heq)
  · refine Or.inl ⟨_, ?_, .notSingle hs⟩
    cases item with
    | string s =>
      have h1 : s.length ≠ 1 := fun h => hs ⟨s, rfl, h⟩
      rw [letter, if_pos h1]
    | _ => rfl

theorem not_isStray_iff : ¬IsStray item ↔ ∃ l, letter item = .ok l := by
  rcases letter_cases item with ⟨e, he, hc⟩ | ⟨l, hl, hs⟩
  · simp only [he, hc.isStray, not_true_eq_false, reduceCtorEq, exists_false]
  · exact iff_of_true hs ⟨l, hl⟩

theorem Complaint.unique {e' : SemanticError} (h : Complaint item e) (h' : Complaint item e') :
    e = e' := by
  have hw : IsSingle (.string Symbol.wildcard) := ⟨_, rfl, rfl⟩
  cases h with
  | notSingle h =>
    cases h' with
    | notSingle => rfl
    | wildcard => exact absurd hw h
  | wildcard =>
    cases h' with
    | notSingle h => exact absurd hw h
    | wildcard => rfl

/-! ## Taking up items one by one -/

/-- What an item makes of an alphabet. -/
def give (a : Alphabet) (item : Json) : Except SemanticError Alphabet := (letter item).map (addLetter a)

theorem give_of_error (h : letter item = .error e) : give a item = .error e := by rw [give, h]; rfl

theorem give_of_ok {l : Symbol} (h : letter item = .ok l) : give a item = .ok (addLetter a l) := by
  rw [give, h]
  rfl

/-- Reading all letters first and then adding them comes to the same. -/
theorem foldlM_give (items : List Json) (a : Alphabet) :
    items.foldlM give a = (letters items).map fun ls => ls.foldl addLetter a := by
  induction items generalizing a with
  | nil => rfl
  | cons item rest ih =>
    rw [List.foldlM_cons, letters]
    cases hl : letter item with
    | error e =>
      rw [give_of_error hl]
      rfl
    | ok l =>
      rw [give_of_ok hl]
      refine (ih (addLetter a l)).trans ?_
      cases letters rest <;> rfl

theorem ofItems_eq_foldlM (items : List Json) : ofItems items = items.foldlM give [Symbol.blank] :=
  (foldlM_give items [Symbol.blank]).symm

/-- The error is about the first item that gives no letter, whatever was taken up before. -/
theorem foldlM_give_eq_error : items.foldlM give a = .error e ↔
    ∃ item, FirstIn items IsStray item ∧ Complaint item e := by
  induction items generalizing a with
  | nil =>
    refine iff_of_false (fun h => ?_) fun ⟨_, hfirst, _⟩ => firstIn_nil hfirst
    cases h
  | cons item rest ih =>
    rw [List.foldlM_cons]
    simp only [firstIn_cons]
    rcases letter_cases item with ⟨e', hl, hc⟩ | ⟨l, hl, hs⟩
    · rw [give_of_error hl]
      constructor
      · intro h
        cases h
        exact ⟨item, Or.inl ⟨hc.isStray, rfl⟩, hc⟩
      · rintro ⟨_, ⟨-, rfl⟩ | ⟨hs, -⟩, h⟩
        · exact congrArg _ (hc.unique h)
        · exact absurd hc.isStray hs
    · rw [give_of_ok hl]
      refine (ih (a := addLetter a l)).trans ?_
      simp only [hs, false_and, false_or, not_false_eq_true, true_and]

/-- More items are taken up into the alphabet of those before. -/
theorem ofItems_append (items rest : List Json) :
    ofItems (items ++ rest) = (ofItems items).bind fun a => rest.foldlM give a := by
  rw [ofItems_eq_foldlM, ofItems_eq_foldlM, List.foldlM_append]
  rfl

/-! ## Normal forms -/

/-- The normal form of given letters: the blank comes first, no letter stands twice, the letters are the
blank and the given ones, and after the blank they stand in the order in which each is first given. -/
structure IsNormalForm (given : List Symbol) (a : Alphabet) : Prop where
  blank_first : a.head? = some Symbol.blank
  nodup : a.Nodup
  mem_iff : ∀ l, l ∈ a ↔ l = Symbol.blank ∨ l ∈ given
  ordered : a.tail.Pairwise fun x y => given.idxOf x < given.idxOf y

namespace IsNormalForm

theorem eq_cons (h : IsNormalForm given a) : a = Symbol.blank :: a.tail := by
  obtain ⟨rest, rfl⟩ := List.head?_eq_some_iff.mp h.blank_first
  rfl

theorem mem_tail_iff (h : IsNormalForm given a) {l : Symbol} :
    l ∈ a.tail ↔ l ∈ given ∧ l ≠ Symbol.blank := by
  have hn := h.nodup
  have hm := h.mem_iff l
  rw [h.eq_cons] at hn hm
  rw [List.mem_cons] at hm
  have hblank : Symbol.blank ∉ a.tail := (List.nodup_cons.mp hn).1
  constructor
  · intro hl
    have hne : l ≠ Symbol.blank := fun he => hblank (he ▸ hl)
    exact ⟨(hm.mp (Or.inr hl)).resolve_left hne, hne⟩
  · rintro ⟨hg, hne⟩
    exact (hm.mpr (Or.inr hg)).resolve_left hne

theorem nil : IsNormalForm [] [Symbol.blank] :=
  ⟨rfl, by simp, by simp, List.Pairwise.nil⟩

/-- Letters that are already there keep their order when more are given. -/
theorem ordered_append (h : IsNormalForm given a) (more : List Symbol) :
    a.tail.Pairwise fun x y => (given ++ more).idxOf x < (given ++ more).idxOf y := by
  refine h.ordered.imp_of_mem ?_
  intro x y hx hy hlt
  rw [List.idxOf_append_of_mem (h.mem_tail_iff.mp hx).1, List.idxOf_append_of_mem (h.mem_tail_iff.mp hy).1]
  exact hlt

/-- A letter that is given for the first time comes after those that are there. -/
theorem idxOf_lt_of_new (h : IsNormalForm given a) {x l : Symbol} (hx : x ∈ a.tail) (hl : l ∉ given) :
    (given ++ [l]).idxOf x < (given ++ [l]).idxOf l := by
  have hg : x ∈ given := (h.mem_tail_iff.mp hx).1
  calc (given ++ [l]).idxOf x = given.idxOf x := List.idxOf_append_of_mem hg
    _ < given.length := List.idxOf_lt_length_of_mem hg
    _ ≤ given.length + [l].idxOf l := Nat.le_add_right _ _
    _ = (given ++ [l]).idxOf l := (List.idxOf_append_of_notMem hl).symm

/-- One more letter: it changes nothing if it is there already, and is put at the end if not. -/
theorem addLetter (h : IsNormalForm given a) (l : Symbol) :
    IsNormalForm (given ++ [l]) (Alphabet.addLetter a l) := by
  have hmem : ∀ x, x ∈ Alphabet.addLetter a l ↔ x = Symbol.blank ∨ x ∈ given ++ [l] := fun x => by
    rw [mem_addLetter, h.mem_iff, List.mem_append, List.mem_singleton, or_assoc]
  have hnodup : (Alphabet.addLetter a l).Nodup := nodup_addLetter h.nodup
  by_cases hl : l ∈ a
  · have hadd : Alphabet.addLetter a l = a := if_pos hl
    rw [hadd] at hmem hnodup ⊢
    exact ⟨h.blank_first, hnodup, hmem, h.ordered_append [l]⟩
  · have hadd : Alphabet.addLetter a l = a ++ [l] := if_neg hl
    have hgiven : l ∉ given := fun hg => hl ((h.mem_iff l).mpr (Or.inr hg))
    have hcons : a ++ [l] = Symbol.blank :: (a.tail ++ [l]) := by
      conv_lhs => rw [h.eq_cons]
      rfl
    rw [hadd] at hmem hnodup ⊢
    refine ⟨by rw [hcons]; rfl, hnodup, hmem, ?_⟩
    rw [hcons, List.tail_cons, List.pairwise_append]
    refine ⟨h.ordered_append [l], List.pairwise_singleton _ _, fun x hx y hy => ?_⟩
    obtain rfl := List.mem_singleton.mp hy
    exact h.idxOf_lt_of_new hx hgiven

theorem foldl_addLetter (h : IsNormalForm given a) (ls : List Symbol) :
    IsNormalForm (given ++ ls) (ls.foldl Alphabet.addLetter a) := by
  induction ls generalizing given a with
  | nil => rwa [List.append_nil]
  | cons l ls ih =>
    have hstep := ih (h.addLetter l)
    rwa [List.append_assoc, List.singleton_append] at hstep

/-- Letters have one normal form only. -/
theorem unique (ha : IsNormalForm given a) (hb : IsNormalForm given b) : a = b := by
  have hnodup : ∀ {c}, IsNormalForm given c → c.tail.Nodup := fun h => h.nodup.tail
  have hperm : a.tail.Perm b.tail := (List.perm_ext_iff_of_nodup (hnodup ha) (hnodup hb)).mpr fun l => by
    rw [ha.mem_tail_iff, hb.mem_tail_iff]
  have htail : a.tail = b.tail := hperm.eq_of_pairwise
    (fun x y _ _ hxy hyx => absurd hxy (Nat.lt_asymm hyx)) ha.ordered hb.ordered
  rw [ha.eq_cons, hb.eq_cons, htail]

end IsNormalForm

theorem isNormalForm_ofLetters (ls : List Symbol) : IsNormalForm ls (ofLetters ls) :=
  IsNormalForm.nil.foldl_addLetter ls

/-- Items give an alphabet exactly if each of them gives a letter, and then the normal form of the
letters. -/
theorem ofItems_eq_ok_iff : ofItems items = .ok a ↔
    (∀ item ∈ items, ¬IsStray item) ∧ ∃ ls, items = ls.map Json.string ∧ IsNormalForm ls a := by
  rw [ofItems_eq_ok]
  constructor
  · rintro ⟨ls, hls, rfl⟩
    obtain ⟨rfl, hall⟩ := of_letters hls
    refine ⟨fun item hitem => ?_, ls, rfl, isNormalForm_ofLetters ls⟩
    obtain ⟨l, hl, rfl⟩ := List.mem_map.mp hitem
    exact not_isStray_iff.mpr ⟨l, letter_eq_ok.mpr ⟨rfl, hall l hl⟩⟩
  · rintro ⟨hitems, ls, rfl, hnormal⟩
    have hall : ∀ l ∈ ls, l.length = 1 ∧ l ≠ Symbol.wildcard := by
      intro l hl
      obtain ⟨l', hl'⟩ := not_isStray_iff.mp (hitems (.string l) (List.mem_map_of_mem hl))
      obtain ⟨hsame, hgood⟩ := letter_eq_ok.mp hl'
      cases hsame
      exact hgood
    exact ⟨ls, letters_map_string hall, hnormal.unique (isNormalForm_ofLetters ls)⟩

/-- There is an error exactly if some item gives no letter. -/
theorem exists_error_iff : (∃ e, ofItems items = .error e) ↔ ∃ item ∈ items, IsStray item := by
  constructor
  · rintro ⟨e, he⟩
    rw [ofItems_eq_foldlM] at he
    obtain ⟨item, hfirst, hcomplaint⟩ := foldlM_give_eq_error.mp he
    exact ⟨item, hfirst.mem, hcomplaint.isStray⟩
  · rintro ⟨item, hitem, hstray⟩
    cases h : ofItems items with
    | error e => exact ⟨e, rfl⟩
    | ok a => exact absurd hstray ((ofItems_eq_ok_iff.mp h).1 item hitem)

/-! ## Composition -/

/-- The text of an alphabet gives the letters of the alphabet as items. -/
theorem itemsOf_join (h : ofItems items = .ok a) : itemsOf (String.join a) = a.map Json.string := by
  rw [itemsOf, symbolsOf_join fun l hl => ((of_ofItems h).2 l hl).1]

/-- The letters of an alphabet, given again, are that alphabet. -/
theorem ofItems_map_string (h : ofItems items = .ok a) : ofItems (a.map Json.string) = .ok a := by
  rw [← itemsOf_join h]
  exact ofItems_itemsOf_join h

/-- An alphabet stands for the items that it was made of, whatever items follow. -/
theorem ofItems_append_congr (h : ofItems items = .ok a) (rest : List Json) :
    ofItems (items ++ rest) = ofItems (a.map Json.string ++ rest) := by
  rw [ofItems_append, ofItems_append, h, ofItems_map_string h]

/-- Items that give an alphabet leave every alphabet in place and add to its end. -/
theorem exists_foldlM_give (h : ofItems rest = .ok b) (a : Alphabet) :
    ∃ c, rest.foldlM give a = .ok c ∧ a <+: c := by
  obtain ⟨ls, hls, -⟩ := ofItems_eq_ok.mp h
  refine ⟨ls.foldl addLetter a, ?_, prefix_foldl_addLetter ls a⟩
  rw [foldlM_give, hls]
  rfl

/-- Some item gives no letter, and then the error is about the first that gives none; or the items give
the normal form of their letters. The alphabet of items can be given in their place, as its letters or as
its text: alone it gives itself, and with more items after it what the items give with these, which
begins with the alphabet. -/
theorem ofItems_normalizes (items : List Json) :
    ((∃ e, ofItems items = .error e) ↔ ∃ item ∈ items, IsStray item) ∧
    (∀ e, ofItems items = .error e ↔ ∃ item, FirstIn items IsStray item ∧ Complaint item e) ∧
    (∀ a, ofItems items = .ok a ↔
      (∀ item ∈ items, ¬IsStray item) ∧ ∃ ls, items = ls.map Json.string ∧ IsNormalForm ls a) ∧
    ∀ a, ofItems items = .ok a →
      ofItems (a.map Json.string) = .ok a ∧ ofItems (itemsOf (String.join a)) = .ok a ∧
      ∀ rest b, ofItems rest = .ok b → ∃ c, a <+: c ∧ ofItems (items ++ rest) = .ok c ∧
        ofItems (a.map Json.string ++ rest) = .ok c ∧
        ofItems (itemsOf (String.join a) ++ rest) = .ok c := by
  refine ⟨exists_error_iff, fun e => ?_, fun a => ofItems_eq_ok_iff, fun a h => ?_⟩
  · rw [ofItems_eq_foldlM, foldlM_give_eq_error]
  · refine ⟨ofItems_map_string h, ofItems_itemsOf_join h, fun rest b hb => ?_⟩
    obtain ⟨c, hc, hprefix⟩ := exists_foldlM_give hb a
    have hall : ofItems (items ++ rest) = .ok c := by
      rw [ofItems_append, h]
      exact hc
    have hagain : ofItems (a.map Json.string ++ rest) = .ok c := ofItems_append_congr h rest ▸ hall
    exact ⟨c, hprefix, hall, hagain, itemsOf_join h ▸ hagain⟩

/-- Letters that are given more than once, the blank among them, and after them some of these and a new
one. -/
theorem ofItems_normalizes_repeats :
    ofItems (itemsOf "bab_") = .ok ["_", "b", "a"] ∧ ofItems (itemsOf "ca") = .ok ["_", "c", "a"] ∧
    ∃ c, ["_", "b", "a"] <+: c ∧ ofItems (itemsOf "bab_" ++ itemsOf "ca") = .ok c ∧
      ofItems (["_", "b", "a"].map Json.string ++ itemsOf "ca") = .ok c ∧
      ofItems (itemsOf (String.join ["_", "b", "a"]) ++ itemsOf "ca") = .ok c := by
  have hfirst : ofItems (itemsOf "bab_") = .ok ["_", "b", "a"] := by rfl
  have hmore : ofItems (itemsOf "ca") = .ok ["_", "c", "a"] := by rfl
  obtain ⟨-, -, -, hcompose⟩ := ofItems_normalizes (itemsOf "bab_")
  obtain ⟨-, -, hrest⟩ := hcompose _ hfirst
  exact ⟨hfirst, hmore, hrest _ _ hmore⟩

end Alphabet

end TapeMachine
