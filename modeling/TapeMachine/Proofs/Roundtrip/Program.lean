import TapeMachine.Proofs.Roundtrip.Rule
import TapeMachine.Program

/-!
# Programs read back

The source of states is the texts of their rules, a line each. Reading it adds the rules one after
the other, so the states come back in their order, each with its triggers in their order; only the
lines of the rules are counted anew. The invariant of the reader is that the states before are done
and the last one has got a first part of its rules.

## Main statements

* `Program.readLines_ruleList` — reading the rules of a state appends the state
* `Program.read_sources` — the sources of states read back, but for the lines
* `Program.printable_of_read` — every rule that is read can be printed and read again
-/

namespace TapeMachine

/-! ## Lines -/

namespace Text

/-- Texts without line ends, each followed by one, are the lines of what they make together. -/
theorem lines_join : ∀ {texts : List String}, (∀ t ∈ texts, '\n' ∉ t.toList) →
    lines (String.join (texts.map fun t => t ++ "\n")) = texts ++ [""]
  | [], _ => by decide
  | t :: texts, h => by
    have ih := lines_join fun x hx => h x (List.mem_cons_of_mem _ hx)
    unfold lines at ih ⊢
    have hsplit : (String.join ((t :: texts).map fun t => t ++ "\n")).toList =
        t.toList ++ '\n' :: (String.join (texts.map fun t => t ++ "\n")).toList := by
      simp
    rw [hsplit, List.splitOn_append_cons_self_of_not_mem (h t List.mem_cons_self), List.map_cons,
      ih, String.ofList_toList, List.cons_append]

end Text

namespace Program

variable {p q : Program}

theorem number_append (first : Int) (xs ys : List String) :
    number first (xs ++ ys) = number first xs ++ number (first + xs.length) ys := by
  induction xs generalizing first with
  | nil => simp [number]
  | cons x xs ih =>
    rw [List.cons_append, number, number, ih, List.cons_append, List.length_cons]
    congr 3
    omega

/-- Rules on lines counted from a first one. -/
def onLines (first : Int) : List Rule → List Rule
  | [] => []
  | r :: rest => r.onLine first :: onLines (first + 1) rest

theorem onLines_append (first : Int) (xs ys : List Rule) :
    onLines first (xs ++ ys) = onLines first xs ++ onLines (first + xs.length) ys := by
  induction xs generalizing first with
  | nil => simp [onLines]
  | cons x xs ih =>
    rw [List.cons_append, onLines, onLines, ih, List.cons_append, List.length_cons]
    congr 3
    omega

/-- The rules stand in their places, the lines counted on from the first. -/
theorem getElem?_onLines (rs : List Rule) : ∀ (first : Int) (k : Nat),
    (onLines first rs)[k]? = rs[k]?.map fun r => r.onLine (first + k) := by
  induction rs with
  | nil =>
    intro first k
    rfl
  | cons r rs ih =>
    intro first k
    cases k with
    | zero => simp [onLines]
    | succ k =>
      have hline : first + 1 + (k : Int) = first + ((k + 1 : Nat) : Int) := by omega
      rw [onLines, List.getElem?_cons_succ, List.getElem?_cons_succ, ih, hline]

theorem map_onLines {α : Type} (f : Rule → α) (hf : ∀ r line, f (r.onLine line) = f r)
    (rs : List Rule) : ∀ first : Int, (onLines first rs).map f = rs.map f := by
  induction rs with
  | nil => intro first; rfl
  | cons r rs ih =>
    intro first
    rw [onLines, List.map_cons, List.map_cons, hf, ih]

/-- A state with the same rules on other lines has the same outline. -/
theorem outline_eq_of_onLines {s s' : State} {first : Int} (hn : s'.name = s.name)
    (hl : s'.ruleList = onLines first s.ruleList) : s'.outline = s.outline := by
  have ho : ∀ x : State, x.outline =
      (x.name, x.ruleList.map fun r => (r.trigger, r.transition.action)) := by
    intro x
    rw [State.outline, State.ruleList, List.map_map]
    rfl
  rw [ho, ho, hn, hl, map_onLines _ fun r line => by simp]

/-! ## Reading a rule -/

/-- The line of a well-formed rule adds the rule. -/
theorem readLine_text {r : Rule} (h : r.WellFormed) {line : Int}
    (hq : p.add (r.onLine line) = .ok q) : p.readLine r.text line = .ok q := by
  have hne : Text.strip r.text.toList ≠ [] := by
    intro he
    have hp := Text.padded_strip r.text.toList
    rw [he] at hp
    have hm : '-' ∈ r.text.toList := by simp [Rule.toList_text, arrow]
    exact absurd ((hp.mem_iff (by decide)).mp hm) (by simp)
  unfold readLine readRule
  rw [if_neg hne, Rule.read_text h]
  simp only [hq]
  rfl

/-! ## Reading the rules of a state -/

/-- Reading further rules of the last state appends them to it. -/
theorem readLines_further {rs : List Rule} {done : List State} {s : State}
    (hp : p.states = done ++ [s]) (hname : ∀ r ∈ rs, r.state = s.name)
    (hwf : ∀ r ∈ rs, r.WellFormed) (hkeys : (s.rules.keys ++ rs.map Rule.trigger).Nodup)
    (first : Int) (rest : List (String × Int)) :
    ∃ (q : Program) (s' : State),
      p.readLines (number first (rs.map Rule.text) ++ rest) = q.readLines rest ∧
      q.states = done ++ [s'] ∧ s'.name = s.name ∧
      s'.ruleList = s.ruleList ++ onLines first rs := by
  induction rs generalizing p s first with
  | nil => exact ⟨p, s, rfl, hp, rfl, by simp [onLines]⟩
  | cons r rs ih =>
    have hr : r.state = s.name := hname r List.mem_cons_self
    have hdone : r.state ∉ done.map State.name := by
      have hn := p.nodup
      rw [hp, List.map_append, List.nodup_append] at hn
      intro hm
      exact hn.2.2 _ hm s.name (by simp) hr
    have hfresh : s.rules.find? r.trigger = none := by
      rw [List.map_cons, List.nodup_append] at hkeys
      exact Table.find?_eq_none.mpr fun hm => hkeys.2.2 _ hm r.trigger List.mem_cons_self rfl
    have hadd : addRule (r.onLine first) p.states = .ok (done ++
        [{ s with rules := s.rules.insert r.trigger (r.onLine first).transition hfresh }]) := by
      have happend := @addRule_append (r.onLine first) done [s] hdone
      have hself := @addRule_cons_self (r.onLine first) s [] hr.symm hfresh
      rw [hp, happend, hself]
      rfl
    obtain ⟨q₁, hq₁, hs₁⟩ := exists_add hadd
    obtain ⟨q, s', hread, hq, hn, hl⟩ := ih hs₁ (fun x hx => hname x (List.mem_cons_of_mem _ hx))
      (fun x hx => hwf x (List.mem_cons_of_mem _ hx))
      (by rw [Table.keys_insert, List.append_assoc]; exact hkeys) (first + 1)
    refine ⟨q, s', ?_, hq, hn, ?_⟩
    · rw [List.map_cons, number, List.cons_append, readLines,
        readLine_text (hwf r List.mem_cons_self) hq₁]
      exact hread
    · rw [hl, onLines, State.ruleList, Table.entries_insert, List.map_append, List.append_assoc]
      congr 1
      rw [List.map_singleton, ← hr]
      rfl

/-- Reading the rules of a state of a new name appends the state. -/
theorem readLines_ruleList {s : State} (hname : s.name ∉ p.names) (hne : s.rules.entries ≠ [])
    (hwf : ∀ r ∈ s.ruleList, r.WellFormed) (first : Int) (rest : List (String × Int)) :
    ∃ (q : Program) (s' : State),
      p.readLines (number first (s.ruleList.map Rule.text) ++ rest) = q.readLines rest ∧
      q.states = p.states ++ [s'] ∧ s'.name = s.name ∧ s'.ruleList = onLines first s.ruleList := by
  have hnames : ∀ r ∈ s.ruleList, r.state = s.name := fun r hr => (State.mem_ruleList.mp hr).1
  have hkeys : (s.ruleList.map Rule.trigger).Nodup := s.triggers_ruleList ▸ s.rules.keys_nodup
  cases hl : s.ruleList with
  | nil => exact absurd (List.map_eq_nil_iff.mp hl) hne
  | cons r rs =>
    rw [hl] at hnames hwf hkeys
    have hr : r.state = s.name := hnames r List.mem_cons_self
    -- the first rule makes the state
    have hadd : addRule (r.onLine first) p.states = .ok (p.states ++
        [⟨r.state, Table.empty.insert r.trigger (r.onLine first).transition rfl⟩]) := by
      have h := @addRule_append (r.onLine first) p.states [] (hr ▸ hname)
      rw [List.append_nil] at h
      exact h
    obtain ⟨q₁, hq₁, hs₁⟩ := exists_add hadd
    obtain ⟨q, s', hread, hq, hn, hl'⟩ := readLines_further hs₁
      (fun x hx => (hnames x (List.mem_cons_of_mem _ hx)).trans hr.symm)
      (fun x hx => hwf x (List.mem_cons_of_mem _ hx)) hkeys (first + 1) rest
    refine ⟨q, s', ?_, hq, hn.trans hr, hl'⟩
    rw [List.map_cons, number, List.cons_append, readLines,
      readLine_text (hwf r List.mem_cons_self) hq₁]
    exact hread

/-- Reading the rules of states of new names appends the states. -/
theorem readLines_rules {states : List State} (hnodup : (p.names ++ states.map State.name).Nodup)
    (hne : ∀ s ∈ states, s.rules.entries ≠ []) (hwf : ∀ s ∈ states, ∀ r ∈ s.ruleList, r.WellFormed)
    (first : Int) (rest : List (String × Int)) :
    ∃ (q : Program) (states' : List State), p.readLines
        (number first ((states.flatMap State.ruleList).map Rule.text) ++ rest) = q.readLines rest ∧
      q.states = p.states ++ states' ∧ states'.map State.outline = states.map State.outline ∧
      states'.flatMap State.ruleList = onLines first (states.flatMap State.ruleList) := by
  induction states generalizing p first with
  | nil => exact ⟨p, [], rfl, by simp, rfl, rfl⟩
  | cons s states ih =>
    rw [List.map_cons, List.nodup_append] at hnodup
    obtain ⟨hn₁, hn₂, hdis⟩ := hnodup
    obtain ⟨hs, hrest⟩ := List.nodup_cons.mp hn₂
    have hfresh : s.name ∉ p.names := fun hm => hdis _ hm s.name List.mem_cons_self rfl
    obtain ⟨q₁, s', hread₁, hq₁, hname, hlist⟩ := readLines_ruleList hfresh
      (hne s List.mem_cons_self) (hwf s List.mem_cons_self) first
      (number (first + s.ruleList.length) ((states.flatMap State.ruleList).map Rule.text) ++ rest)
    have hnodup₁ : (q₁.names ++ states.map State.name).Nodup := by
      rw [names, hq₁, List.map_append, List.map_singleton, hname, List.append_assoc,
        List.nodup_append]
      exact ⟨hn₁, hn₂, hdis⟩
    obtain ⟨q, states', hread, hq, hout, hlists⟩ := ih hnodup₁
      (fun x hx => hne x (List.mem_cons_of_mem _ hx))
      (fun x hx => hwf x (List.mem_cons_of_mem _ hx)) (first + s.ruleList.length)
    refine ⟨q, s' :: states', ?_, ?_, ?_, ?_⟩
    · rw [List.flatMap_cons, List.map_append, number_append, List.append_assoc, List.length_map,
        hread₁, hread]
    · rw [hq, hq₁, List.append_assoc]
      rfl
    · rw [List.map_cons, List.map_cons, hout, outline_eq_of_onLines hname hlist]
    · rw [List.flatMap_cons, List.flatMap_cons, onLines_append, hlist, hlists]

/-! ## Sources -/

/-- A list of rules that can be written one a line and read again. -/
def Printable (rs : List Rule) : Prop := ∀ r ∈ rs, r.WellFormed ∧ r.OneLine

theorem join_sources (states : List State) : String.join (states.map State.source) =
    String.join ((states.flatMap State.ruleList).map fun r => r.text ++ "\n") := by
  induction states with
  | nil => rfl
  | cons s states ih =>
    rw [List.map_cons, List.flatMap_cons, List.map_append, String.join_cons, String.join_append, ih,
      State.source_eq]

/-- The sources of states have a rule on each line, and nothing after the last line end. -/
theorem lines_sources {states : List State} (hp : Printable (states.flatMap State.ruleList)) :
    Text.lines (String.join (states.map State.source)) =
      (states.flatMap State.ruleList).map Rule.text ++ [""] := by
  have hsource : String.join (states.map State.source) = String.join
      (((states.flatMap State.ruleList).map Rule.text).map fun t => t ++ "\n") := by
    rw [join_sources, List.map_map]
    rfl
  rw [hsource]
  refine Text.lines_join ?_
  intro t ht
  obtain ⟨r, hr, rfl⟩ := List.mem_map.mp ht
  exact (hp r hr).2

/-- The sources of states read back: the same states in the same order, with the same rules in the
same order, the lines counted from one. -/
theorem read_sources {states : List State} (hnodup : (states.map State.name).Nodup)
    (hne : ∀ s ∈ states, s.rules.entries ≠ []) (hp : Printable (states.flatMap State.ruleList)) :
    ∃ q, read (String.join (states.map State.source)) = .ok q ∧
      q.states.map State.outline = states.map State.outline ∧
      q.rules = onLines 1 (states.flatMap State.ruleList) := by
  have hwf : ∀ s ∈ states, ∀ r ∈ s.ruleList, r.WellFormed := fun s hs r hr =>
    (hp r (List.mem_flatMap.mpr ⟨s, hs, hr⟩)).1
  have hnodup' : (empty.names ++ states.map State.name).Nodup := hnodup
  obtain ⟨q, states', hread, hq, hout, hlists⟩ := readLines_rules hnodup' hne hwf 1
    (number (1 + (states.flatMap State.ruleList).length) [""])
  refine ⟨q, ?_, ?_, ?_⟩
  · rw [read, lines_sources hp, number_append, List.length_map, hread]
    -- the last line is empty
    rfl
  · rw [hq]
    exact hout
  · rw [rules, hq]
    exact hlists

/-- Lines without line ends add only rules that can be printed. -/
theorem printable_of_readLines {numbered : List (String × Int)}
    (hl : ∀ e ∈ numbered, '\n' ∉ e.1.toList) (hp : Printable p.rules)
    (h : p.readLines numbered = .ok q) : Printable q.rules := by
  induction numbered generalizing p with
  | nil =>
    cases h
    exact hp
  | cons e numbered ih =>
    obtain ⟨text, line⟩ := e
    have hrest : ∀ e ∈ numbered, '\n' ∉ e.1.toList := fun e he => hl e (List.mem_cons_of_mem _ he)
    unfold readLines at h
    cases hq : p.readLine text line with
    | error e => simp [hq] at h
    | ok p₁ =>
      rw [hq] at h
      rcases readLine_eq_ok.mp hq with ⟨-, rfl⟩ | ⟨-, r, hr, hadd⟩
      · exact ih hrest hp h
      · refine ih hrest ?_ h
        intro x hx
        rcases (mem_rules_addRule (add_eq_ok.mp hadd)).mp hx with hx | rfl
        · exact hp x hx
        · have hnl : '\n' ∉ text.toList := hl (text, line) List.mem_cons_self
          exact ⟨Rule.wellFormed_of_read hr, Rule.oneLine_of_read hr hnl⟩

theorem mem_of_mem_number {e : String × Int} {texts : List String} :
    ∀ {first : Int}, e ∈ number first texts → e.1 ∈ texts := by
  induction texts with
  | nil => simp [number]
  | cons t texts ih =>
    intro first h
    rcases List.mem_cons.mp h with rfl | h
    · exact List.mem_cons_self
    · exact List.mem_cons_of_mem _ (ih h)

/-- Every rule that is read can be printed and read again. -/
theorem printable_of_read {source : String} (h : read source = .ok p) : Printable p.rules := by
  refine printable_of_readLines ?_ (by simp [Printable, rules, empty]) h
  intro e he
  obtain ⟨part, hpart, htext⟩ := List.mem_map.mp (mem_of_mem_number he)
  rw [← htext, String.toList_ofList]
  exact Text.not_mem_of_mem_splitOn hpart

end Program

end TapeMachine
