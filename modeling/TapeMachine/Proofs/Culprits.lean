import TapeMachine.Proofs.Grammar
import TapeMachine.Proofs.Preorder

/-!
# Errors of meaning point at the first culprit

A text can have several faults of meaning. The error that is reported is about the first of them, and
which one is first can be said of the rules on the lines alone. Faults of letters come state by state
in the order in which the rules mention them, and within a state all triggers come before any write.
Faults of reach come state by state in the order of a depth-first visit, and within a state the letters
come before the targets.

## Main statements

* `findSome?_eq_some_iff_firstIn` — what is found first is found at the first place where anything is
* `State.Of.letterFault_eq_some`, `State.Of.coverFault_eq_some` — the fault of a state, from the rules
* `Program.Lists.visits_iff` — the walk is the depth-first visit of the rules
* `Program.errors_point_at_first_culprit` — which error is reported for a text
-/

namespace TapeMachine

/-! ## The first of a list -/

/-- The first of a list with a property: it has the property, and none before it has. -/
def FirstIn {α : Type} (l : List α) (P : α → Prop) (x : α) : Prop :=
  ∃ before after, l = before ++ x :: after ∧ P x ∧ ∀ y ∈ before, ¬P y

section

variable {α β : Type} {l : List α} {P Q : α → Prop} {x a : α}

theorem firstIn_nil : ¬FirstIn [] P x := by
  rintro ⟨before, after, h, -⟩
  cases before <;> cases h

theorem firstIn_cons : FirstIn (a :: l) P x ↔ P a ∧ x = a ∨ ¬P a ∧ FirstIn l P x := by
  constructor
  · rintro ⟨before, after, h, hx, hbefore⟩
    cases before with
    | nil =>
      cases h
      exact Or.inl ⟨hx, rfl⟩
    | cons b before =>
      cases h
      exact Or.inr ⟨hbefore a List.mem_cons_self, before, after, rfl, hx,
        fun y hy => hbefore y (List.mem_cons_of_mem _ hy)⟩
  · rintro (⟨ha, rfl⟩ | ⟨ha, before, after, rfl, hx, hbefore⟩)
    · exact ⟨[], l, rfl, ha, nofun⟩
    · refine ⟨a :: before, after, rfl, hx, fun y hy => ?_⟩
      rcases List.mem_cons.mp hy with rfl | hy
      · exact ha
      · exact hbefore y hy

theorem FirstIn.mem (h : FirstIn l P x) : x ∈ l := by
  obtain ⟨before, after, rfl, -⟩ := h
  exact List.mem_append_right _ List.mem_cons_self

theorem FirstIn.congr (h : ∀ y ∈ l, P y ↔ Q y) : FirstIn l P x ↔ FirstIn l Q x := by
  induction l with
  | nil => exact iff_of_false firstIn_nil firstIn_nil
  | cons a l ih =>
    rw [firstIn_cons, firstIn_cons, h a List.mem_cons_self,
      ih fun y hy => h y (List.mem_cons_of_mem _ hy)]

theorem firstIn_map {f : α → β} {P : β → Prop} {y : β} :
    FirstIn (l.map f) P y ↔ ∃ x, FirstIn l (fun x => P (f x)) x ∧ f x = y := by
  induction l with
  | nil => simp only [List.map_nil, firstIn_nil, false_and, exists_false]
  | cons a l ih =>
    simp only [List.map_cons, firstIn_cons, ih, or_and_right, exists_or]
    refine or_congr ?_ ?_
    · constructor
      · rintro ⟨ha, rfl⟩
        exact ⟨a, ⟨ha, rfl⟩, rfl⟩
      · rintro ⟨x, ⟨ha, rfl⟩, rfl⟩
        exact ⟨ha, rfl⟩
    · simp only [and_assoc, exists_and_left]

theorem firstIn_filter {q : α → Bool} :
    FirstIn (l.filter q) P x ↔ FirstIn l (fun y => q y = true ∧ P y) x := by
  induction l with
  | nil => exact iff_of_false firstIn_nil firstIn_nil
  | cons a l ih =>
    cases hq : q a with
    | true => rw [List.filter_cons_of_pos hq, firstIn_cons, firstIn_cons, ih, hq, eq_self, true_and]
    | false =>
      rw [List.filter_cons_of_neg (by rw [hq]; exact Bool.false_ne_true), firstIn_cons, ih, hq]
      simp only [Bool.false_eq_true, false_and, not_false_eq_true, true_and, false_or]

/-- What is found first in a list is found at the first place where anything is found. -/
theorem findSome?_eq_some_iff_firstIn {f : α → Option β} {b : β} :
    l.findSome? f = some b ↔ ∃ x, FirstIn l (fun y => f y ≠ none) x ∧ f x = some b := by
  rw [List.findSome?_eq_some_iff]
  constructor
  · rintro ⟨before, x, after, rfl, hx, hbefore⟩
    have hfound : f x ≠ none := by
      rw [hx]
      exact Option.some_ne_none b
    exact ⟨x, ⟨before, after, rfl, hfound, fun y hy => not_not_intro (hbefore y hy)⟩, hx⟩
  · rintro ⟨x, ⟨before, after, rfl, -, hbefore⟩, hx⟩
    exact ⟨before, x, after, rfl, hx, fun y hy => Decidable.not_not.mp (hbefore y hy)⟩

theorem find?_eq_some_iff_firstIn {q : α → Bool} :
    l.find? q = some x ↔ FirstIn l (fun y => q y = true) x := by
  rw [List.find?_eq_some_iff_append]
  constructor
  · rintro ⟨hx, before, after, rfl, hbefore⟩
    refine ⟨before, after, rfl, hx, fun y hy => ?_⟩
    rw [Bool.not_eq_true, ← Bool.not_eq_true']
    exact hbefore y hy
  · rintro ⟨before, after, rfl, hx, hbefore⟩
    refine ⟨hx, before, after, rfl, fun y hy => ?_⟩
    rw [Bool.not_eq_true', ← Bool.not_eq_true]
    exact hbefore y hy

/-- Where what is found depends on a property, it is found at the first place with the property. -/
theorem findSome?_ite_eq_some {P : α → Prop} [DecidablePred P] {g : α → β} {b : β} :
    (l.findSome? fun x => if P x then some (g x) else none) = some b ↔
      ∃ x, FirstIn l P x ∧ g x = b := by
  rw [findSome?_eq_some_iff_firstIn]
  refine exists_congr fun x => ?_
  have hfirst : FirstIn l (fun y => (if P y then some (g y) else none) ≠ none) x ↔ FirstIn l P x :=
    FirstIn.congr fun y _ => by simp
  rw [hfirst]
  refine and_congr_right fun h => ?_
  obtain ⟨before, after, -, hx, -⟩ := h
  rw [if_pos hx, Option.some.injEq]

theorem findSome?_ite_eq_none {P : α → Prop} [DecidablePred P] {g : α → β} :
    (l.findSome? fun x => if P x then some (g x) else none) = none ↔ ∀ x ∈ l, ¬P x := by
  rw [List.findSome?_eq_none_iff]
  refine forall₂_congr fun x _ => ?_
  by_cases h : P x <;> simp [h]

end

/-! ## Faults of letters -/

namespace Rule

/-- A rule reads something that is neither a letter nor the wildcard. -/
def ReadsStray (alphabet : Alphabet) (r : Rule) : Prop :=
  r.trigger ≠ Symbol.wildcard ∧ r.trigger ∉ alphabet

/-- A rule writes something that is neither a letter nor the wildcard. -/
def WritesStray (alphabet : Alphabet) (r : Rule) : Prop :=
  r.transition.writes = true ∧ r.transition.write ∉ alphabet

instance (alphabet : Alphabet) (r : Rule) : Decidable (r.ReadsStray alphabet) :=
  inferInstanceAs (Decidable (_ ∧ _))

instance (alphabet : Alphabet) (r : Rule) : Decidable (r.WritesStray alphabet) :=
  inferInstanceAs (Decidable (_ ∧ _))

/-- A rule goes to a state that the rules do not have. -/
def Dangles (rs : List Rule) (r : Rule) : Prop :=
  isHalting r.transition.next = false ∧ r.transition.next ∉ rs.map Rule.state

instance (rs : List Rule) (r : Rule) : Decidable (r.Dangles rs) :=
  inferInstanceAs (Decidable (_ ∧ _))

end Rule

section

variable (alphabet : Alphabet) (rs : List Rule) (name : String)

/-- A state is reserved, or a rule of it reads or writes what is no letter. -/
def Tainted : Prop :=
  isHalting name = true ∨
    ∃ r ∈ rs, r.state = name ∧ (r.ReadsStray alphabet ∨ r.WritesStray alphabet)

/-- The fault of a tainted state. -/
inductive LetterCulprit : SemanticError → Prop where
  /-- It is reserved: the least line of its rules. -/
  | reserved {line : Int} (h : isHalting name = true)
      (least : IsLeast {n | ∃ r ∈ rs, r.state = name ∧ r.transition.line = n} line) :
      LetterCulprit ⟨some line, .reserved name⟩
  /-- Its first rule that reads what is no letter. -/
  | trigger {r : Rule} (h : isHalting name = false)
      (first : FirstIn rs (fun r => r.state = name ∧ r.ReadsStray alphabet) r) :
      LetterCulprit ⟨some r.transition.line, .unknownTrigger name r.trigger⟩
  /-- Its first rule that writes what is no letter, if all that they read are letters. -/
  | write {r : Rule} (h : isHalting name = false)
      (reads : ∀ r ∈ rs, r.state = name → ¬r.ReadsStray alphabet)
      (first : FirstIn rs (fun r => r.state = name ∧ r.WritesStray alphabet) r) :
      LetterCulprit ⟨some r.transition.line, .unknownWrite name r.transition.write⟩

end

/-- The least line is one of those counted, and none of them is less. -/
theorem isLeast_leastLine (first : Int) (ts : List Transition) :
    IsLeast {n | n = first ∨ ∃ t ∈ ts, t.line = n} (leastLine first ts) := by
  induction ts generalizing first with
  | nil =>
    refine ⟨Or.inl rfl, ?_⟩
    rintro n (rfl | ⟨t, ht, -⟩)
    · exact Int.le_refl _
    · cases ht
  | cons t ts ih =>
    obtain ⟨hmem, hle⟩ := ih (min first t.line)
    have hmin : leastLine first (t :: ts) ≤ min first t.line := hle (Or.inl rfl)
    constructor
    · rcases hmem with hmem | ⟨t', ht', hmem⟩
      · rcases Int.le_total first t.line with h | h
        · exact Or.inl (hmem.trans (Int.min_eq_left h))
        · exact Or.inr ⟨t, List.mem_cons_self, (hmem.trans (Int.min_eq_right h)).symm⟩
      · exact Or.inr ⟨t', List.mem_cons_of_mem _ ht', hmem⟩
    · rintro n (rfl | ⟨t', ht', rfl⟩)
      · omega
      · rcases List.mem_cons.mp ht' with rfl | ht'
        · omega
        · exact hle (Or.inr ⟨t', ht', rfl⟩)

namespace State

variable {alphabet : Alphabet} {rs : List Rule} {s : State} {e : SemanticError}

theorem values_ruleList (s : State) : s.ruleList.map Rule.transition = s.rules.values := by
  rw [ruleList, List.map_map]
  rfl

/-- Where the rules of a state begin is the least line of theirs. -/
theorem isLeast_firstLine {line : Int} (h : s.firstLine = some line) :
    IsLeast {n | ∃ r ∈ s.ruleList, r.transition.line = n} line := by
  have hset : {n | ∃ r ∈ s.ruleList, r.transition.line = n} =
      {n | ∃ t ∈ s.rules.values, t.line = n} := by
    rw [← values_ruleList]
    simp only [List.mem_map, exists_exists_and_eq_and]
  rw [hset]
  unfold firstLine at h
  cases hv : s.rules.values with
  | nil =>
    rw [hv] at h
    cases h
  | cons t ts =>
    rw [hv] at h
    cases h
    have hleast := isLeast_leastLine t.line ts
    simp only [List.exists_mem_cons_iff, @eq_comm _ _ t.line] at hleast ⊢
    exact hleast

theorem exists_firstLine (h : s.rules.entries ≠ []) : ∃ line, s.firstLine = some line := by
  cases hv : s.rules.values with
  | nil => exact absurd (List.map_eq_nil_iff.mp hv) h
  | cons t ts => exact ⟨leastLine t.line ts, by rw [firstLine, hv]⟩

/-- The faults of a state that is not reserved: first what its rules read, then what they write. -/
theorem letterFault_of_not_halting (h : isHalting s.name = false) : s.letterFault alphabet =
    (s.ruleList.findSome? fun r => if r.ReadsStray alphabet then
      some (⟨some r.transition.line, .unknownTrigger s.name r.trigger⟩ : SemanticError) else none).or
    (s.ruleList.findSome? fun r => if r.WritesStray alphabet then
      some (⟨some r.transition.line, .unknownWrite s.name r.transition.write⟩ : SemanticError)
      else none) := by
  rw [letterFault, if_neg (by rw [h]; exact Bool.false_ne_true), ruleList, List.findSome?_map,
    List.findSome?_map]
  rfl

end State

/-- The rules of a state are those of its name, in their order. -/
def State.Of (s : State) (rs : List Rule) : Prop := s.ruleList = rs.filter fun r => r.state = s.name

namespace State.Of

variable {alphabet : Alphabet} {rs : List Rule} {s : State} {e : SemanticError} {P : Rule → Prop}
  {r : Rule}

theorem forall_iff (h : s.Of rs) :
    (∀ r ∈ s.ruleList, P r) ↔ ∀ r ∈ rs, r.state = s.name → P r := by
  rw [h]
  simp only [List.mem_filter, decide_eq_true_eq, and_imp]

theorem exists_iff (h : s.Of rs) :
    (∃ r ∈ s.ruleList, P r) ↔ ∃ r ∈ rs, r.state = s.name ∧ P r := by
  rw [h]
  simp only [List.mem_filter, decide_eq_true_eq, and_assoc]

theorem firstIn_iff (h : s.Of rs) :
    FirstIn s.ruleList P r ↔ FirstIn rs (fun r => r.state = s.name ∧ P r) r := by
  rw [h, firstIn_filter]
  simp only [decide_eq_true_eq]

/-- A state has a fault of letters exactly if it is tainted. -/
theorem letterFault_ne_none (h : s.Of rs) :
    s.letterFault alphabet ≠ none ↔ Tainted alphabet rs s.name := by
  unfold Tainted
  cases hh : isHalting s.name with
  | true => simp only [letterFault, hh, if_true, true_or, ne_eq, reduceCtorEq, not_false_eq_true]
  | false =>
    rw [letterFault_of_not_halting hh, ne_eq, Option.or_eq_none_iff, findSome?_ite_eq_none,
      findSome?_ite_eq_none, h.forall_iff, h.forall_iff]
    constructor
    · intro hstray
      by_contra hnone
      simp only [Bool.false_eq_true, false_or, not_exists, not_and, not_or] at hnone
      exact hstray ⟨fun r hr hn => (hnone r hr hn).1, fun r hr hn => (hnone r hr hn).2⟩
    · rintro (hh' | ⟨r, hr, hn, hreads | hwrites⟩) ⟨hnoread, hnowrite⟩
      · cases hh'
      · exact hnoread r hr hn hreads
      · exact hnowrite r hr hn hwrites

/-- The fault of letters of a state, from the rules. -/
theorem letterFault_eq_some (h : s.Of rs) (hne : s.rules.entries ≠ []) :
    s.letterFault alphabet = some e ↔ LetterCulprit alphabet rs s.name e := by
  cases hh : isHalting s.name with
  | true =>
    obtain ⟨line, hline⟩ := exists_firstLine hne
    have hleast := isLeast_firstLine hline
    simp only [h.exists_iff] at hleast
    rw [letterFault, if_pos hh, hline, Option.some.injEq]
    constructor
    · rintro rfl
      exact .reserved hh hleast
    · intro hc
      cases hc with
      | reserved _ least => rw [Int.le_antisymm (hleast.2 least.1) (least.2 hleast.1)]
      | trigger hn => rw [hh] at hn; cases hn
      | write hn => rw [hh] at hn; cases hn
  | false =>
    rw [letterFault_of_not_halting hh, Option.or_eq_some_iff, findSome?_ite_eq_none,
      findSome?_ite_eq_some, findSome?_ite_eq_some, h.forall_iff]
    simp only [h.firstIn_iff]
    constructor
    · rintro (⟨r, hr, rfl⟩ | ⟨hreads, r, hr, rfl⟩)
      · exact .trigger hh hr
      · exact .write hh hreads hr
    · intro hc
      cases hc with
      | reserved hn => rw [hh] at hn; cases hn
      | trigger _ first => exact Or.inl ⟨_, first, rfl⟩
      | write _ reads first => exact Or.inr ⟨reads, _, first, rfl⟩

end State.Of

namespace Program

variable {p : Program} {alphabet : Alphabet} {rs : List Rule} {e : SemanticError}

theorem Lists.state_of (h : p.Lists rs) {s : State} (hs : s ∈ p.states) : s.Of rs := h.ruleList s hs

/-- A name is that of a state exactly if a rule is under it. -/
theorem Lists.mem_names_iff (h : p.Lists rs) {name : String} :
    name ∈ p.names ↔ name ∈ rs.map Rule.state := by rw [h.names, List.mem_eraseDups]

/-- The first fault of states is the fault of the first that has one. -/
theorem findSome?_states_eq_some {states : List State} {fault : State → Option SemanticError}
    {P : String → Prop} {F : String → SemanticError → Prop}
    (hP : ∀ s ∈ states, fault s ≠ none ↔ P s.name)
    (hF : ∀ s ∈ states, fault s = some e ↔ F s.name e) :
    states.findSome? fault = some e ↔
      ∃ name, FirstIn (states.map State.name) P name ∧ F name e := by
  rw [findSome?_eq_some_iff_firstIn]
  simp only [firstIn_map]
  constructor
  · rintro ⟨s, hfirst, hs⟩
    exact ⟨s.name, ⟨s, (FirstIn.congr hP).mp hfirst, rfl⟩, (hF s hfirst.mem).mp hs⟩
  · rintro ⟨name, ⟨s, hfirst, rfl⟩, hs⟩
    exact ⟨s, (FirstIn.congr hP).mpr hfirst, (hF s hfirst.mem).mpr hs⟩

/-- The error of letters is the fault of the first tainted state, in the order of first mention. -/
theorem Lists.checkLetters_eq_error (h : p.Lists rs) : p.checkLetters alphabet = .error e ↔
    ∃ name, FirstIn (rs.map Rule.state).eraseDups (Tainted alphabet rs) name ∧
      LetterCulprit alphabet rs name e := by
  have hsome : p.checkLetters alphabet = .error e ↔
      (p.states.findSome? fun s => s.letterFault alphabet) = some e := by
    unfold checkLetters
    cases p.states.findSome? fun s => s.letterFault alphabet <;> simp
  rw [hsome, ← h.names]
  exact findSome?_states_eq_some (fun s hs => (h.state_of hs).letterFault_ne_none)
    fun s hs => (h.state_of hs).letterFault_eq_some (p.rules_ne_nil s hs)

end Program

/-! ## Faults of reach -/

section

variable (alphabet : Alphabet) (rs : List Rule) (name : String)

/-- A state does not say what to do with a letter: it has no rule for it, and no wildcard. -/
def Lacks (l : Symbol) : Prop :=
  ∀ r ∈ rs, r.state = name → r.trigger ≠ Symbol.wildcard ∧ r.trigger ≠ l

/-- A state does not say what to do with some letter, or goes to a state that does not exist. -/
def Defective : Prop :=
  (∃ l ∈ alphabet, Lacks rs name l) ∨ ∃ r ∈ rs, r.state = name ∧ r.Dangles rs

/-- The fault of a defective state. -/
inductive CoverCulprit : SemanticError → Prop where
  /-- The first letter, in the order of the alphabet, with which it does not say what to do. -/
  | letter {l : Symbol} (first : FirstIn alphabet (Lacks rs name) l) :
      CoverCulprit ⟨none, .missingLetter name l⟩
  /-- Its first rule that goes to a state that does not exist, if it covers all letters. -/
  | target {r : Rule} (covers : ∀ l ∈ alphabet, ¬Lacks rs name l)
      (first : FirstIn rs (fun r => r.state = name ∧ r.Dangles rs) r) :
      CoverCulprit ⟨some r.transition.line, .missingState r.transition.next⟩

/-- What the rules of a state go to, in their order, the halting names apart. -/
def targetsIn : List String :=
  ((rs.filter fun r => r.state = name).map fun r => r.transition.next).filter
    fun next => !isHalting next

end

/-- Depth first: names are visited in order, each unless it was visited already or has no rule, and
after a state what it goes to. -/
inductive Visits (rs : List Rule) : (visited names after : List String) → Prop where
  | done {visited : List String} : Visits rs visited [] visited
  | again {visited rest after : List String} {name : String} (hv : name ∈ visited)
      (h : Visits rs visited rest after) : Visits rs visited (name :: rest) after
  | missing {visited rest after : List String} {name : String} (hs : name ∉ rs.map Rule.state)
      (h : Visits rs visited rest after) : Visits rs visited (name :: rest) after
  | state {visited below rest after : List String} {name : String}
      (hs : name ∈ rs.map Rule.state) (hv : name ∉ visited)
      (hbelow : Visits rs (visited ++ [name]) (targetsIn rs name) below)
      (hrest : Visits rs below rest after) : Visits rs visited (name :: rest) after

/-- The faults of reach of a state: first the letters, then where its rules go. -/
theorem State.coverFault_of_lists {p : Program} {alphabet : Alphabet} {rs : List Rule} (s : State)
    (hp : p.Lists rs) : s.coverFault p alphabet =
    ((alphabet.find? fun l => !s.hasWildcard && !s.rules.contains l).map fun l =>
      (⟨none, .missingLetter s.name l⟩ : SemanticError)).or
    (s.ruleList.findSome? fun r => if r.Dangles rs then
      some (⟨some r.transition.line, .missingState r.transition.next⟩ : SemanticError) else none) := by
  have hdangles : ∀ r : Rule, (isHalting r.transition.next || p.has r.transition.next) = true ↔
      ¬r.Dangles rs := by
    intro r
    rw [Rule.Dangles, Bool.or_eq_true, Program.has_iff, hp.mem_names_iff, not_and_or,
      Bool.not_eq_false, not_not]
  have hletter : (if s.hasWildcard then none
      else (alphabet.find? fun l => !s.rules.contains l).map fun l =>
        (⟨none, .missingLetter s.name l⟩ : SemanticError)) =
      (alphabet.find? fun l => !s.hasWildcard && !s.rules.contains l).map fun l =>
        ⟨none, .missingLetter s.name l⟩ := by
    cases s.hasWildcard with
    | true =>
      have hnone : alphabet.find? (fun l => !true && !s.rules.contains l) = none :=
        List.find?_eq_none.mpr fun l _ => Bool.false_ne_true
      rw [if_pos rfl, hnone, Option.map_none]
    | false => rfl
  have htarget : (s.rules.values.findSome? fun t =>
      if isHalting t.next || p.has t.next then none
      else some (⟨some t.line, .missingState t.next⟩ : SemanticError)) =
      s.ruleList.findSome? fun r => if r.Dangles rs then
        some ⟨some r.transition.line, .missingState r.transition.next⟩ else none := by
    rw [← State.values_ruleList, List.findSome?_map]
    congr 1
    funext r
    by_cases hr : r.Dangles rs
    · rw [if_pos hr]
      exact if_neg (by rw [hdangles]; exact not_not_intro hr)
    · rw [if_neg hr]
      exact if_pos ((hdangles r).mpr hr)
  exact congrArg₂ Option.or hletter htarget

namespace State.Of

variable {p : Program} {alphabet : Alphabet} {rs : List Rule} {s : State} {e : SemanticError}
  {l : Symbol}

theorem lacks_iff (h : s.Of rs) :
    Lacks rs s.name l ↔ s.hasWildcard = false ∧ s.rules.contains l = false := by
  unfold Lacks hasWildcard
  rw [← h.forall_iff, ← Bool.not_eq_true, ← Bool.not_eq_true, Table.contains_iff, Table.contains_iff,
    ← triggers_ruleList, List.mem_map, List.mem_map]
  constructor
  · intro hlacks
    refine ⟨?_, ?_⟩
    · rintro ⟨r, hr, hw⟩
      exact (hlacks r hr).1 hw
    · rintro ⟨r, hr, hl⟩
      exact (hlacks r hr).2 hl
  · rintro ⟨hw, hl⟩ r hr
    exact ⟨fun he => hw ⟨r, hr, he⟩, fun he => hl ⟨r, hr, he⟩⟩

theorem letter_eq_some (h : s.Of rs) :
    (alphabet.find? fun l => !s.hasWildcard && !s.rules.contains l) = some l ↔
      FirstIn alphabet (Lacks rs s.name) l := by
  rw [find?_eq_some_iff_firstIn]
  refine FirstIn.congr fun l _ => ?_
  rw [h.lacks_iff, Bool.and_eq_true, Bool.not_eq_true', Bool.not_eq_true']

theorem letter_eq_none (h : s.Of rs) :
    (alphabet.find? fun l => !s.hasWildcard && !s.rules.contains l) = none ↔
      ∀ l ∈ alphabet, ¬Lacks rs s.name l := by
  rw [List.find?_eq_none]
  refine forall₂_congr fun l _ => ?_
  rw [h.lacks_iff, Bool.and_eq_true, Bool.not_eq_true', Bool.not_eq_true']

/-- A state has a fault of reach exactly if it is defective. -/
theorem coverFault_ne_none (h : s.Of rs) (hp : p.Lists rs) :
    s.coverFault p alphabet ≠ none ↔ Defective alphabet rs s.name := by
  rw [s.coverFault_of_lists hp, ne_eq, Option.or_eq_none_iff, Option.map_eq_none_iff, h.letter_eq_none,
    findSome?_ite_eq_none, h.forall_iff, Defective, not_and_or]
  simp only [not_forall, not_not, exists_prop]

/-- The fault of reach of a state, from the rules. -/
theorem coverFault_eq_some (h : s.Of rs) (hp : p.Lists rs) :
    s.coverFault p alphabet = some e ↔ CoverCulprit alphabet rs s.name e := by
  rw [s.coverFault_of_lists hp, Option.or_eq_some_iff, Option.map_eq_some_iff, Option.map_eq_none_iff,
    h.letter_eq_none, findSome?_ite_eq_some]
  simp only [h.letter_eq_some, h.firstIn_iff]
  constructor
  · rintro (⟨l, hl, rfl⟩ | ⟨hcovers, r, hr, rfl⟩)
    · exact .letter hl
    · exact .target hcovers hr
  · intro hc
    cases hc with
    | letter first => exact Or.inl ⟨_, first, rfl⟩
    | target covers first => exact Or.inr ⟨covers, _, first, rfl⟩

/-- What a state goes to, from the rules. -/
theorem targets_eq (h : s.Of rs) : s.targets = targetsIn rs s.name := by
  rw [targets, targetsIn, ← values_ruleList, ← h, List.map_map]
  rfl

end State.Of

namespace Program

variable {p : Program} {alphabet : Alphabet} {rs : List Rule} {e : SemanticError}
  {source : String} {visited names after : List String}

/-! ## The visit -/

theorem Lists.find?_of_mem (h : p.Lists rs) {name : String} (hs : name ∈ rs.map Rule.state) :
    ∃ s, p.find? name = some s ∧ s.targets = targetsIn rs name := by
  cases hf : p.find? name with
  | none => exact absurd (h.mem_names_iff.mpr hs) (find?_eq_none.mp hf)
  | some s =>
    obtain ⟨hmem, rfl⟩ := find?_eq_some.mp hf
    exact ⟨s, rfl, (h.state_of hmem).targets_eq⟩

/-- What a depth-first visit comes to is what the walk comes to. -/
theorem Lists.eq_walk (h : p.Lists rs) (hv : Visits rs visited names after) :
    after = p.walk visited names := by
  induction hv with
  | done => rw [walk]
  | again hv _ ih => rw [ih, walk_of_mem hv]
  | @missing visited rest after name hs _ ih =>
    by_cases hv : name ∈ visited
    · rw [ih, walk_of_mem hv]
    · have hnone : p.find? name = none := find?_eq_none.mpr fun hm => hs (h.mem_names_iff.mp hm)
      rw [ih, walk_of_find?_none hv hnone]
  | state hs hv _ _ ihbelow ihrest =>
    obtain ⟨s, hf, ht⟩ := h.find?_of_mem hs
    rw [walk_of_find?_targets hv hf, ht, ← ihbelow, ihrest]

/-- There is a depth-first visit, and it comes to what the walk comes to. -/
theorem Lists.visits_walk (h : p.Lists rs) (visited names : List String) :
    Visits rs visited names (p.walk visited names) := by
  match names with
  | [] =>
    rw [walk]
    exact .done
  | name :: rest =>
    by_cases hv : name ∈ visited
    · rw [walk_of_mem hv]
      exact .again hv (h.visits_walk visited rest)
    · by_cases hs : name ∈ rs.map Rule.state
      · obtain ⟨s, hf, ht⟩ := h.find?_of_mem hs
        have hfewer := unvisited_lt (h.mem_names_iff.mpr hs) hv
        have hnomore := p.unvisited_le (p.prefix_walk (visited ++ [name]) s.targets).subset
        rw [walk_of_find?_targets hv hf]
        refine .state hs hv ?_ (h.visits_walk _ rest)
        rw [← ht]
        exact h.visits_walk (visited ++ [name]) s.targets
      · have hnone : p.find? name = none := find?_eq_none.mpr fun hm => hs (h.mem_names_iff.mp hm)
        rw [walk_of_find?_none hv hnone]
        exact .missing hs (h.visits_walk visited rest)
termination_by (p.unvisited visited, names.length)
decreasing_by
  · exact Prod.Lex.right _ (by simp)
  · exact Prod.Lex.left _ _ hfewer
  · exact Prod.Lex.left _ _ (by omega)
  · exact Prod.Lex.right _ (by simp)

/-- The depth-first visit of the rules is what the walk comes to. -/
theorem Lists.visits_iff (h : p.Lists rs) :
    Visits rs visited names after ↔ after = p.walk visited names := by
  constructor
  · exact h.eq_walk
  · rintro rfl
    exact h.visits_walk visited names

/-- Where there is a start state, the error of reach is the fault of the first defective state, in the
order of the depth-first visit from it. -/
theorem Lists.checkCover_eq_error (h : p.Lists rs) (hs : startName ∈ p.names) :
    p.checkCover alphabet = .error e ↔
      ∃ name, FirstIn p.reachableNames (Defective alphabet rs) name ∧
        CoverCulprit alphabet rs name e := by
  obtain ⟨start, hf, -⟩ := h.find?_of_mem (h.mem_names_iff.mp hs)
  have hsome : p.checkCover alphabet = .error e ↔
      (p.reachable.findSome? fun s => s.coverFault p alphabet) = some e := by
    rw [checkCover_eq, hf]
    cases p.reachable.findSome? fun s => s.coverFault p alphabet <;> simp
  have hof : ∀ s ∈ p.reachable, s.Of rs := fun s hs => h.state_of (mem_reachable_iff.mp hs).1
  rw [hsome, ← p.names_reachable]
  exact findSome?_states_eq_some (fun s hs => (hof s hs).coverFault_ne_none h)
    fun s hs => (hof s hs).coverFault_eq_some h

/-- Which error of meaning is reported for a text that was read, over any alphabet, is said by the
rules on its lines. The error of letters is that of the first tainted state in the order in which the
rules mention them. If there is a start state, the error of reach is that of the first defective state
in the order of the depth-first visit from the start, of which there is exactly one and which comes to
the states that can be reached. -/
theorem errors_point_at_first_culprit (hp : read source = .ok p) (alphabet : Alphabet) :
    ∃ rs, ReadAs (number 1 (Text.lines source)) rs ∧
      (∀ e, p.checkLetters alphabet = .error e ↔
        ∃ name, FirstIn (rs.map Rule.state).eraseDups (Tainted alphabet rs) name ∧
          LetterCulprit alphabet rs name e) ∧
      ∃ order, (∀ other, Visits rs [] [startName] other ↔ other = order) ∧ order.Nodup ∧
        (∀ name, name ∈ order ↔ p.Reaches name ∧ name ∈ rs.map Rule.state) ∧
        (startName ∈ p.names → ∀ e, p.checkCover alphabet = .error e ↔
          ∃ name, FirstIn order (Defective alphabet rs) name ∧
            CoverCulprit alphabet rs name e) := by
  obtain ⟨rs, hrs, hlists⟩ := lists_empty.readLines hp
  rw [List.nil_append] at hlists
  refine ⟨rs, hrs, fun e => hlists.checkLetters_eq_error, p.reachableNames,
    fun other => hlists.visits_iff, p.nodup_reachableNames, fun name => ?_,
    fun hs e => hlists.checkCover_eq_error hs⟩
  rw [mem_reachableNames_iff, hlists.mem_names_iff]

/-- A text whose third state in the order of mention, the second that is visited, goes to two states
that do not exist. -/
theorem errors_point_at_first_culprit_two_missing : ∃ p rs order e name,
    read "S,_ -> A,*,r\nS,a -> B,*,r\nB,* -> ha,*,s\nA,a -> C,*,s\nA,_ -> D,*,s\n" = .ok p ∧
      Visits rs [] [startName] order ∧ p.checkCover ["_", "a"] = .error e ∧
      e.message = "SEMANTIC ERROR @ Ln 4 - State C does not exist" ∧
      FirstIn order (Defective ["_", "a"] rs) name ∧ CoverCulprit ["_", "a"] rs name e := by
  let source := "S,_ -> A,*,r\nS,a -> B,*,r\nB,* -> ha,*,s\nA,a -> C,*,s\nA,_ -> D,*,s\n"
  let test : Program → Bool := fun p => p.has startName && match p.checkCover ["_", "a"] with
    | .error e => e.message == "SEMANTIC ERROR @ Ln 4 - State C does not exist"
    | .ok _ => false
  have htest : ((read source).toOption.any test) = true := by decide +kernel
  cases hp : read source with
  | error e =>
    rw [hp] at htest
    cases htest
  | ok p =>
    rw [hp] at htest
    obtain ⟨hstart, hreports⟩ := (Bool.and_eq_true _ _).mp (show test p = true from htest)
    obtain ⟨rs, -, -, order, horder, -, -, hcover⟩ := errors_point_at_first_culprit hp ["_", "a"]
    cases hcheck : p.checkCover ["_", "a"] with
    | error e =>
      rw [hcheck] at hreports
      obtain ⟨name, hfirst, hculprit⟩ := (hcover (has_iff.mp hstart) e).mp hcheck
      exact ⟨p, rs, order, e, name, rfl, (horder order).mpr rfl, hcheck, eq_of_beq hreports, hfirst,
        hculprit⟩
    | ok start =>
      rw [hcheck] at hreports
      cases hreports

end Program

end TapeMachine
