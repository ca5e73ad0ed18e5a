/-!
# Tables

A table is a finite map that remembers the order in which its keys were first given. Rules of a
state, fields of a settings file and entries of a directory are tables: what is printed about them
follows that order.

## Main statements

* `Table.keys_set` — giving a value to a known key moves nothing, a new key goes to the end
* `Table.entries_set_of_new`, `Table.entries_set_of_known` — and all else stays as it is
* `Table.find?_set` — the last value given to a key is the one found
* `Table.set_set`, `Table.set_comm` — values given one after the other
* `Table.find?_insert` — inserting under a new key changes no other key
-/

namespace TapeMachine

/-- An element that a list does not have can be put at its end. -/
theorem nodup_append_singleton {α : Type} {l : List α} {a : α} (hl : l.Nodup) (ha : a ∉ l) :
    (l ++ [a]).Nodup := by grind

/-- Pairs of key and value in order of first mention, no key twice. -/
structure Table (κ ν : Type) where
  entries : List (κ × ν)
  nodup : (entries.map Prod.fst).Nodup

namespace Table

variable {κ ν : Type}

/-! ## Reading -/

def empty : Table κ ν := ⟨[], List.nodup_nil⟩

instance : Inhabited (Table κ ν) := ⟨empty⟩

def keys (t : Table κ ν) : List κ := t.entries.map Prod.fst

/-- The values, in the order of their keys. -/
def values (t : Table κ ν) : List ν := t.entries.map Prod.snd

def size (t : Table κ ν) : Nat := t.entries.length

theorem keys_nodup (t : Table κ ν) : t.keys.Nodup := t.nodup

/-- Two tables with the same entries in the same order are equal. -/
theorem ext_entries {s t : Table κ ν} (h : s.entries = t.entries) : s = t := by
  cases s; cases t; cases h; rfl

instance [DecidableEq κ] [DecidableEq ν] : DecidableEq (Table κ ν) := fun s t =>
  if h : s.entries = t.entries then isTrue (ext_entries h)
  else isFalse fun hst => h (hst ▸ rfl)

variable [DecidableEq κ]

/-- The value under a key, if there is one. -/
def find? (t : Table κ ν) (k : κ) : Option ν := t.entries.lookup k

def contains (t : Table κ ν) (k : κ) : Bool := (t.find? k).isSome

/-- A key has no value exactly if it is not among the keys. -/
theorem find?_eq_none {t : Table κ ν} {k : κ} : t.find? k = none ↔ k ∉ t.keys := by
  simp only [find?, keys, List.lookup_eq_none_iff, bne_iff_ne, List.mem_map, not_exists, not_and]
  exact ⟨fun h e he hk => h e he hk.symm, fun h e he hk => h e he hk.symm⟩

/-- Finding a value under a key says that the pair is an entry. -/
theorem find?_eq_some {t : Table κ ν} {k : κ} {v : ν} :
    t.find? k = some v ↔ (k, v) ∈ t.entries := by
  unfold find?
  constructor
  · intro h
    obtain ⟨before, after, he, -⟩ := List.lookup_eq_some_iff.mp h
    simp [he]
  · intro h
    obtain ⟨before, after, he⟩ := List.append_of_mem h
    refine List.lookup_eq_some_iff.mpr ⟨before, after, he, ?_⟩
    intro e hb
    have hn := t.nodup
    rw [he, List.map_append, List.nodup_append] at hn
    simpa using (hn.2.2 e.1 (List.mem_map_of_mem hb) k (by simp)).symm

/-- Values changed one by one are found changed. -/
theorem map_find? {μ : Type} {t : Table κ ν} (f : ν → μ) (k : κ) :
    (t.find? k).map f = (t.entries.map fun e => (e.1, f e.2)).lookup k := by
  unfold find?
  induction t.entries with
  | nil => rfl
  | cons e rest ih =>
    rw [List.map_cons, List.lookup_cons, List.lookup_cons]
    cases k == e.1 with
    | true => rfl
    | false => exact ih

theorem contains_iff {t : Table κ ν} {k : κ} : t.contains k = true ↔ k ∈ t.keys := by
  rw [contains, Option.isSome_iff_ne_none, ne_eq, find?_eq_none, Decidable.not_not]

/-! ## Adding a new key -/

/-- Adds an entry at the end; the key must be new. -/
def insert (t : Table κ ν) (k : κ) (v : ν) (new : t.find? k = none) : Table κ ν where
  entries := t.entries ++ [(k, v)]
  nodup := by
    rw [List.map_append]
    exact nodup_append_singleton t.nodup (find?_eq_none.mp new)

@[simp] theorem entries_insert (t : Table κ ν) (k : κ) (v : ν) (h : t.find? k = none) :
    (t.insert k v h).entries = t.entries ++ [(k, v)] := rfl

@[simp] theorem keys_insert (t : Table κ ν) (k : κ) (v : ν) (h : t.find? k = none) :
    (t.insert k v h).keys = t.keys ++ [k] := by simp [keys]

theorem find?_insert (t : Table κ ν) (k : κ) (v : ν) (h : t.find? k = none) (k' : κ) :
    (t.insert k v h).find? k' = if k = k' then some v else t.find? k' := by
  have hn : t.entries.lookup k = none := h
  simp only [find?, entries_insert, List.lookup_append]
  by_cases hk : k = k'
  · subst hk; simp [hn]
  · have hb : (k' == k) = false := by simpa using Ne.symm hk
    simp [hk, List.lookup_cons, hb]

/-! ## Giving a key its value -/

/-- The pairs with `v` under `k`: in place if the key is known, else at the end. -/
def put (k : κ) (v : ν) : List (κ × ν) → List (κ × ν)
  | [] => [(k, v)]
  | (k', v') :: rest => if k' = k then (k, v) :: rest else (k', v') :: put k v rest

theorem keys_put (k : κ) (v : ν) : ∀ l : List (κ × ν), (put k v l).map Prod.fst =
    if k ∈ l.map Prod.fst then l.map Prod.fst else l.map Prod.fst ++ [k]
  | [] => by simp [put]
  | (k', v') :: rest => by
    by_cases hk : k' = k
    · simp [put, hk]
    · have ih := keys_put k v rest
      simp only [put, if_neg hk, List.map_cons, ih, List.mem_cons, Ne.symm hk, false_or]
      split <;> simp

/-- The table with `v` under `k`: in place if the key is known, else at the end. -/
def set (t : Table κ ν) (k : κ) (v : ν) : Table κ ν where
  entries := put k v t.entries
  nodup := by
    rw [keys_put]
    split
    · exact t.nodup
    · next hk => exact nodup_append_singleton t.nodup hk

/-- Giving a value to a known key moves nothing, a new key goes to the end. -/
theorem keys_set (t : Table κ ν) (k : κ) (v : ν) :
    (t.set k v).keys = if k ∈ t.keys then t.keys else t.keys ++ [k] := keys_put k v t.entries

theorem put_of_not_mem {k : κ} (v : ν) : ∀ {l : List (κ × ν)}, k ∉ l.map Prod.fst →
    put k v l = l ++ [(k, v)]
  | [], _ => rfl
  | (k', v') :: rest, h => by
    rw [List.map_cons, List.mem_cons, not_or] at h
    rw [put, if_neg (Ne.symm h.1), put_of_not_mem v h.2, List.cons_append]

theorem put_append_cons {k : κ} (v v' : ν) (after : List (κ × ν)) : ∀ {before : List (κ × ν)},
    k ∉ before.map Prod.fst → put k v (before ++ (k, v') :: after) = before ++ (k, v) :: after
  | [], _ => by rw [List.nil_append, put, if_pos rfl, List.nil_append]
  | (k₁, v₁) :: before, h => by
    rw [List.map_cons, List.mem_cons, not_or] at h
    rw [List.cons_append, put, if_neg (Ne.symm h.1), put_append_cons v v' after h.2,
      List.cons_append]

theorem lookup_put (k : κ) (v : ν) (k' : κ) : ∀ l : List (κ × ν),
    (put k v l).lookup k' = if k = k' then some v else l.lookup k'
  | [] => by
    by_cases h : k = k'
    · simp [put, h]
    · have hb : (k' == k) = false := by simpa using Ne.symm h
      simp [put, List.lookup_cons, h, hb]
  | (k₁, v₁) :: rest => by
    have ih := lookup_put k v k' rest
    by_cases h1 : k₁ = k
    · by_cases h2 : k = k'
      · simp [put, h1, h2]
      · have hb : (k' == k) = false := by simpa using Ne.symm h2
        simp [put, List.lookup_cons, h1, h2, hb]
    · rw [put, if_neg h1, List.lookup_cons, List.lookup_cons, ih]
      by_cases h2 : k = k'
      · have hb : (k' == k₁) = false := by simpa [h2] using Ne.symm h1
        simp [h2, hb]
      · simp [h2]

/-- A new key goes to the end with its value. -/
theorem entries_set_of_new {t : Table κ ν} {k : κ} (v : ν) (h : t.find? k = none) :
    (t.set k v).entries = t.entries ++ [(k, v)] := put_of_not_mem v (find?_eq_none.mp h)

/-- A known key keeps its place. -/
theorem entries_set_of_known {t : Table κ ν} {k : κ} {v : ν} (v' : ν) (h : t.find? k = some v) :
    ∃ before after, t.entries = before ++ (k, v) :: after ∧
      (t.set k v').entries = before ++ (k, v') :: after := by
  obtain ⟨before, after, he⟩ := List.append_of_mem (find?_eq_some.mp h)
  have hn := t.nodup
  rw [he, List.map_append, List.nodup_append] at hn
  have hk : k ∉ before.map Prod.fst := fun hk => hn.2.2 k hk k List.mem_cons_self rfl
  refine ⟨before, after, he, ?_⟩
  unfold set
  simp only [he]
  exact put_append_cons v' v after hk

/-- The last value given to a key is the one found, and no other key is touched. -/
theorem find?_set (t : Table κ ν) (k : κ) (v : ν) (k' : κ) :
    (t.set k v).find? k' = if k = k' then some v else t.find? k' := lookup_put k v k' t.entries

theorem put_put (k : κ) (v v' : ν) : ∀ l : List (κ × ν), put k v' (put k v l) = put k v' l
  | [] => by simp [put]
  | (k₁, v₁) :: rest => by
    by_cases h : k₁ = k
    · simp [put, h]
    · simp [put, h, put_put k v v' rest]

theorem set_set (t : Table κ ν) (k : κ) (v v' : ν) : (t.set k v).set k v' = t.set k v' :=
  ext_entries (put_put k v v' t.entries)

theorem put_comm {k k' : κ} (hne : k ≠ k') (v v' : ν) : ∀ l : List (κ × ν), k ∈ l.map Prod.fst →
    put k v (put k' v' l) = put k' v' (put k v l)
  | [], h => by simp at h
  | (k₁, v₁) :: rest, h => by
    by_cases h1 : k₁ = k
    · subst h1
      simp [put, hne]
    · by_cases h2 : k₁ = k'
      · subst h2
        simp [put, h1]
      · have hrest : k ∈ rest.map Prod.fst := by
          rw [List.map_cons, List.mem_cons] at h
          exact h.resolve_left (Ne.symm h1)
        simp [put, h1, h2, put_comm hne v v' rest hrest]

theorem set_comm {t : Table κ ν} {k k' : κ} (hne : k ≠ k') (hk : k ∈ t.keys) (v v' : ν) :
    (t.set k' v').set k v = (t.set k v).set k' v' :=
  ext_entries (put_comm hne v v' t.entries hk)

/-- The table of a list of pairs, where a later value for a key replaces an earlier one. -/
def ofList (l : List (κ × ν)) : Table κ ν := l.foldl (fun t e => t.set e.1 e.2) empty

/-! ## Taking a key away -/

def erase (t : Table κ ν) (k : κ) : Table κ ν where
  entries := t.entries.filter fun e => e.1 ≠ k
  nodup := t.nodup.sublist (List.filter_sublist.map _)

end Table

end TapeMachine
