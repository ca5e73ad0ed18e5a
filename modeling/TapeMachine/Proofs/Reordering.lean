import TapeMachine.Proofs.Grammar
import TapeMachine.Proofs.LockStep
import TapeMachine.Proofs.Validity
import TapeMachine.Sample

/-!
# The order of rules and letters

A program means what its rules say, wherever they stand. Two texts with the same lines in another
order, blank lines apart, are read both or not at all, and then their programs have the same rules on
other lines. Names are found, symbols looked up, and validity decided by what rules there are. So the
two compile to machines that run alike, and the order of the letters is as little seen.

The notion that carries this is `SameRules`, and for single states `State.Alike`: the same action for
each trigger.

## Main statements

* `Program.exists_read_of_perm`, `Program.sameRules_of_perm` — texts with the same lines
* `Program.SameRules.rel_find?` — where one program has a state, the other has one like it
* `Program.SameRules.validOver` — the programs are valid over the same letters
* `Machine.compile_reordered` — texts with the same lines compile to machines that run alike
-/

namespace TapeMachine

/-! ## What rules say -/

/-- What a rule says, its place in a program apart. -/
def Rule.content (r : Rule) : (String × Symbol) × (String × Symbol × Move) :=
  (r.key, r.transition.action)

/-- The states have one name and do the same for each trigger. -/
structure State.Alike (s s' : State) : Prop where
  name : s.name = s'.name
  action : ∀ trigger, (s.rules.find? trigger).map Transition.action =
    (s'.rules.find? trigger).map Transition.action

namespace State.Alike

variable {s s' : State}

theorem symm (h : s.Alike s') : s'.Alike s := ⟨h.name.symm, fun trigger => (h.action trigger).symm⟩

theorem lookup (h : s.Alike s') (cell : Symbol) :
    (s.lookup cell).map Transition.action = (s'.lookup cell).map Transition.action := by
  rw [State.lookup, State.lookup, Option.map_or, Option.map_or, h.action, h.action]

theorem exists_entry (h : s.Alike s') {e : Symbol × Transition} (he : e ∈ s.rules.entries) :
    ∃ e' ∈ s'.rules.entries, e'.1 = e.1 ∧ e'.2.action = e.2.action := by
  have ha := h.action e.1
  rw [Table.find?_eq_some.mpr he, Option.map_some, eq_comm] at ha
  obtain ⟨t', ht', ha⟩ := Option.map_eq_some_iff.mp ha
  exact ⟨(e.1, t'), Table.find?_eq_some.mp ht', rfl, ha⟩

theorem mem_keys (h : s.Alike s') {trigger : Symbol} (hk : trigger ∈ s.rules.keys) :
    trigger ∈ s'.rules.keys := by
  obtain ⟨e, he, rfl⟩ := List.mem_map.mp hk
  obtain ⟨e', he', hkey, -⟩ := h.exists_entry he
  exact hkey ▸ List.mem_map_of_mem he'

theorem mem_targets (h : s.Alike s') {target : String} (ht : target ∈ s.targets) :
    target ∈ s'.targets := by
  obtain ⟨t, htv, rfl, hh⟩ := Program.mem_targets.mp ht
  obtain ⟨e, he, rfl⟩ := List.mem_map.mp htv
  obtain ⟨e', he', -, ha⟩ := h.exists_entry he
  have hnext : e'.2.next = e.2.next := congrArg Prod.fst ha
  exact Program.mem_targets.mpr ⟨e'.2, List.mem_map_of_mem he', hnext, hnext ▸ hh⟩

end State.Alike

namespace Program

variable {p q : Program} {alphabet alphabet' : Alphabet}

/-! ## Programs with the same rules -/

/-- Some rule of a program does a thing for a trigger in a state exactly if that is found there. -/
theorem mem_contents_iff {name : String} {trigger : Symbol} {action : String × Symbol × Move} :
    ((name, trigger), action) ∈ p.rules.map Rule.content ↔
      ∃ s, p.find? name = some s ∧ (s.rules.find? trigger).map Transition.action = some action := by
  rw [List.mem_map]
  constructor
  · rintro ⟨r, hr, hc⟩
    simp only [Rule.content, Rule.key, Prod.mk.injEq] at hc
    obtain ⟨⟨rfl, rfl⟩, rfl⟩ := hc
    obtain ⟨s, hs, hf⟩ := mem_rules_iff.mp hr
    exact ⟨s, hs, by rw [hf, Option.map_some]⟩
  · rintro ⟨s, hs, hf⟩
    obtain ⟨t, ht, rfl⟩ := Option.map_eq_some_iff.mp hf
    exact ⟨⟨name, trigger, t⟩, mem_rules_iff.mpr ⟨s, hs, ht⟩, rfl⟩

/-- The programs have rules that say the same. -/
def SameRules (p q : Program) : Prop :=
  ∀ x, x ∈ p.rules.map Rule.content ↔ x ∈ q.rules.map Rule.content

namespace SameRules

theorem symm (h : SameRules p q) : SameRules q p := fun x => (h x).symm

/-- Where one program has a state, the other has one like it: no state is without a rule. -/
theorem exists_alike (h : SameRules p q) {name : String} {s : State}
    (hs : p.find? name = some s) : ∃ s', q.find? name = some s' ∧ s.Alike s' := by
  obtain ⟨hmem, hname⟩ := find?_eq_some.mp hs
  obtain ⟨e, he⟩ := List.exists_mem_of_ne_nil _ (p.rules_ne_nil s hmem)
  have hx : ((name, e.1), e.2.action) ∈ p.rules.map Rule.content :=
    mem_contents_iff.mpr ⟨s, hs, by rw [Table.find?_eq_some.mpr he, Option.map_some]⟩
  obtain ⟨s', hs', -⟩ := mem_contents_iff.mp ((h _).mp hx)
  refine ⟨s', hs', hname.trans (find?_eq_some.mp hs').2.symm, ?_⟩
  -- the contents under the name tell what is found for each trigger
  intro trigger
  refine Option.ext fun action => ?_
  have hp : ((name, trigger), action) ∈ p.rules.map Rule.content ↔
      (s.rules.find? trigger).map Transition.action = some action := by
    rw [mem_contents_iff, hs]
    simp
  have hq : ((name, trigger), action) ∈ q.rules.map Rule.content ↔
      (s'.rules.find? trigger).map Transition.action = some action := by
    rw [mem_contents_iff, hs']
    simp
  exact hp.symm.trans ((h _).trans hq)

theorem rel_find? (h : SameRules p q) (name : String) :
    Option.Rel State.Alike (p.find? name) (q.find? name) := by
  cases hp : p.find? name with
  | some s =>
    obtain ⟨s', hq, ha⟩ := h.exists_alike hp
    rw [hq]
    exact .some ha
  | none =>
    cases hq : q.find? name with
    | none => exact .none
    | some s' =>
      obtain ⟨s, hs, -⟩ := h.symm.exists_alike hq
      rw [hp] at hs
      cases hs

theorem inLockStep (h : SameRules p q) : InLockStep p q State.Alike where
  name := State.Alike.name
  lookup := State.Alike.lookup
  next := fun _ _ t _ _ => h.rel_find? t.next

/-! ## Validity -/

theorem reaches (h : SameRules p q) {name : String} (hr : p.Reaches name) : q.Reaches name := by
  induction hr with
  | start => exact .start
  | step _ hs ht hh ih =>
    obtain ⟨s', hs', ha⟩ := h.exists_alike hs
    exact ih.target hs' (ha.mem_targets (mem_targets.mpr ⟨_, ht, rfl, hh⟩))

/-- Every state of one program is like one of the other. -/
theorem exists_state (h : SameRules p q) {s' : State} (hs' : s' ∈ q.states) :
    ∃ s ∈ p.states, s'.Alike s := by
  obtain ⟨s, hs, ha⟩ := h.symm.exists_alike (find?_eq_some.mpr ⟨hs', rfl⟩)
  exact ⟨s, (find?_eq_some.mp hs).1, ha⟩

/-- A program with the rules of a valid program is valid, over an alphabet of the same letters. -/
theorem validOver (h : SameRules p q) (hl : ∀ l, l ∈ alphabet ↔ l ∈ alphabet')
    (hv : p.ValidOver alphabet) : q.ValidOver alphabet' where
  unreserved := by
    intro s' hs'
    obtain ⟨s, hs, ha⟩ := h.exists_state hs'
    exact ha.name ▸ hv.unreserved s hs
  triggers := by
    intro s' hs' e' he'
    obtain ⟨s, hs, ha⟩ := h.exists_state hs'
    obtain ⟨e, he, hkey, -⟩ := ha.exists_entry he'
    exact (hkey ▸ hv.triggers s hs e he).imp_right (hl _).mp
  writes := by
    intro s' hs' e' he'
    obtain ⟨s, hs, ha⟩ := h.exists_state hs'
    obtain ⟨e, he, -, haction⟩ := ha.exists_entry he'
    have hw : e.2.write = e'.2.write := congrArg (fun a => a.2.1) haction
    exact (hw ▸ hv.writes s hs e he).imp_right (hl _).mp
  start := by
    obtain ⟨s, hs, -⟩ := hv.covered startName .start
    obtain ⟨s', hs', -⟩ := h.exists_alike hs
    exact mem_names_of_find? hs'
  covered := by
    intro name hr
    obtain ⟨s, hs, hc⟩ := hv.covered name (h.symm.reaches hr)
    obtain ⟨s', hs', ha⟩ := h.exists_alike hs
    exact ⟨s', hs', hc.imp ha.mem_keys fun hall l hm => ha.mem_keys (hall l ((hl l).mpr hm))⟩

end SameRules

/-! ## Texts with the same lines -/

variable {texts texts' : List String} {source source' : String}

/-- The lines with anything on them. -/
def solidLines (texts : List String) : List String := texts.filter fun text => !Text.blankLine text

theorem mem_solidLines {text : String} :
    text ∈ solidLines texts ↔ text ∈ texts ∧ Text.blankLine text = false := by
  simp [solidLines]

/-- Lines in another order, with other blank lines, are in the grammar too. -/
theorem Grammatical.of_perm (h : Grammatical texts)
    (hp : (solidLines texts).Perm (solidLines texts')) : Grammatical texts' := by
  refine ⟨?_, ?_⟩
  · intro text ht
    cases hb : Text.blankLine text with
    | true => exact Or.inl rfl
    | false =>
      have hm := (mem_solidLines.mp (hp.mem_iff.mpr (mem_solidLines.mpr ⟨ht, hb⟩))).1
      exact Or.inr ((h.lines text hm).resolve_left (by simp [hb]))
  · -- blank lines spell nothing, and the condition on two lines is symmetric
    have hsolid : (solidLines texts').Pairwise fun a b => ∀ l l' : Layout, l.Spells a →
        l'.Spells b → (l.state, l.trigger) ≠ (l'.state, l'.trigger) :=
      (hp.pairwise_iff fun hab l l' hl hl' => (hab l' l hl' hl).symm).mp (h.distinct.filter _)
    refine (List.pairwise_filter.mp hsolid).imp ?_
    intro a b hab l l' hl hl'
    exact hab (by simp [hl.not_blank]) (by simp [hl'.not_blank]) l l' hl hl'

/-- A text is read exactly if its lines are in the grammar. -/
theorem exists_read_iff : (∃ p, read source = .ok p) ↔ Grammatical (Text.lines source) := by
  constructor
  · rintro ⟨p, hp⟩
    obtain ⟨rs, hrs, hlists⟩ := lists_empty.readLines hp
    exact exists_readAs_iff.mp ⟨rs, hrs, hlists.nodup⟩
  · intro h
    have hreads : ∃ rs, ReadAs (number 1 (Text.lines source)) rs ∧ (rs.map Rule.key).Nodup :=
      exists_readAs_iff.mpr h
    obtain ⟨rs, hrs, hnodup⟩ := hreads
    exact exists_readLines lists_empty hrs hnodup

/-- What the rules of a program say is what the lines of its text say. -/
theorem mem_contents_of_read (h : read source = .ok p)
    {x : (String × Symbol) × (String × Symbol × Move)} : x ∈ p.rules.map Rule.content ↔
      ∃ text ∈ Text.lines source, ∃ l : Layout, l.Spells text ∧ (l.rule 0).content = x := by
  obtain ⟨rs, hrs, hlists⟩ := lists_empty.readLines h
  rw [(hlists.perm.map Rule.content).mem_iff]
  exact mem_map_iff (fun _ _ _ => rfl) hrs

theorem exists_read_of_perm
    (hp : (solidLines (Text.lines source)).Perm (solidLines (Text.lines source')))
    (h : read source = .ok p) : ∃ q, read source' = .ok q :=
  exists_read_iff.mpr ((exists_read_iff.mp ⟨p, h⟩).of_perm hp)

theorem sameRules_of_perm
    (hp : (solidLines (Text.lines source)).Perm (solidLines (Text.lines source')))
    (h : read source = .ok p) (h' : read source' = .ok q) : SameRules p q := by
  -- a line that spells a rule is solid, so it is among the lines of both texts
  have hmem : ∀ {text : String} {l : Layout}, l.Spells text →
      (text ∈ Text.lines source ↔ text ∈ Text.lines source') := by
    intro text l hl
    have hsolid := hp.mem_iff (a := text)
    rw [mem_solidLines, mem_solidLines] at hsolid
    simpa only [hl.not_blank, and_true] using hsolid
  intro x
  rw [mem_contents_of_read h, mem_contents_of_read h']
  constructor
  · rintro ⟨text, ht, l, hl, hx⟩
    exact ⟨text, (hmem hl).mp ht, l, hl, hx⟩
  · rintro ⟨text, ht, l, hl, hx⟩
    exact ⟨text, (hmem hl).mpr ht, l, hl, hx⟩

end Program

/-! ## Letters in another order -/

namespace Alphabet

variable {items items' : List Json} {a : Alphabet}

/-- Items that are texts of single characters, none the wildcard, give an alphabet. -/
theorem exists_ofItems (h : ∀ item ∈ items, ∃ l, letter item = .ok l) :
    ∃ a, ofItems items = .ok a := by
  have hletters : ∃ ls, letters items = .ok ls := by
    induction items with
    | nil => exact ⟨[], rfl⟩
    | cons item rest ih =>
      obtain ⟨l, hl⟩ := h item List.mem_cons_self
      obtain ⟨ls, hls⟩ := ih fun x hx => h x (List.mem_cons_of_mem _ hx)
      exact ⟨l :: ls, by rw [letters, hl, hls]; rfl⟩
  obtain ⟨ls, hls⟩ := hletters
  exact ⟨ofLetters ls, ofItems_eq_ok.mpr ⟨ls, hls, rfl⟩⟩

/-- The letters of an alphabet are the blank and the items. -/
theorem mem_ofItems (h : ofItems items = .ok a) {l : Symbol} :
    l ∈ a ↔ l = Symbol.blank ∨ Json.string l ∈ items := by
  obtain ⟨ls, hls, rfl⟩ := ofItems_eq_ok.mp h
  obtain ⟨rfl, -⟩ := of_letters hls
  rw [mem_ofLetters]
  simp

/-- The same items in another order, some more than once, give an alphabet of the same letters. -/
theorem exists_ofItems_of_mem_iff (hi : ∀ item, item ∈ items ↔ item ∈ items')
    (h : ofItems items = .ok a) : ∃ a', ofItems items' = .ok a' ∧ ∀ l, l ∈ a ↔ l ∈ a' := by
  have hall : ∀ item ∈ items', ∃ l, letter item = .ok l := by
    intro item hm
    obtain ⟨ls, hls, -⟩ := ofItems_eq_ok.mp h
    obtain ⟨rfl, hg⟩ := of_letters hls
    obtain ⟨l, hl, rfl⟩ := List.mem_map.mp ((hi item).mpr hm)
    exact ⟨l, letter_eq_ok.mpr ⟨rfl, hg l hl⟩⟩
  obtain ⟨a', ha'⟩ := exists_ofItems hall
  refine ⟨a', ha', ?_⟩
  intro l
  rw [mem_ofItems h, mem_ofItems ha', hi]

end Alphabet

/-! ## Machines -/

namespace Machine

variable {source source' : String} {items items' : List Json} {m m' : Machine}

theorem exists_compile_of_perm
    (hp : (Program.solidLines (Text.lines source)).Perm (Program.solidLines (Text.lines source')))
    (hi : ∀ item, item ∈ items ↔ item ∈ items') (hm : compile source items = .ok m) :
    ∃ m', compile source' items' = .ok m' := by
  obtain ⟨ha, hread⟩ := compile_eq_ok.mp hm
  obtain ⟨a', ha', hl⟩ := Alphabet.exists_ofItems_of_mem_iff hi ha
  obtain ⟨q, hq⟩ := Program.exists_read_of_perm hp hread
  have hv : q.ValidOver a' := (Program.sameRules_of_perm hp hread hq).validOver hl m.validOver
  obtain ⟨start, hs, -⟩ := hv.covered startName .start
  have hc : q.check a' = .ok start := Program.check_eq_ok_iff_validOver.mpr ⟨hs, hv⟩
  exact ⟨⟨a', q, start, hc⟩, compile_eq_ok.mpr ⟨ha', hq⟩⟩

/-- Machines whose programs have the same rules start in states that are alike. -/
theorem start_alike (h : Program.SameRules m.program m'.program) : m.start.Alike m'.start := by
  obtain ⟨s, hs, ha⟩ := h.exists_alike m.find?_startName
  rw [m'.find?_startName] at hs
  cases hs
  exact ha

/-- Two texts with the same lines in any order, with any blank lines between them, compile over the
same items in any order both or not at all. Then the machines run alike on every input: in any number
of steps they make the same transitions, and they end with the same result or the same message. -/
theorem compile_reordered [Host]
    (hp : ((Text.lines source).filter fun text => !Text.blankLine text).Perm
      ((Text.lines source').filter fun text => !Text.blankLine text))
    (hi : ∀ item, item ∈ items ↔ item ∈ items') :
    ((∃ m, compile source items = .ok m) ↔ ∃ m', compile source' items' = .ok m') ∧
    ∀ m m', compile source items = .ok m → compile source' items' = .ok m' →
      ∀ contents size head, m.RunsLike m' contents size head := by
  refine ⟨⟨?_, ?_⟩, ?_⟩
  · rintro ⟨m, hm⟩
    exact exists_compile_of_perm hp hi hm
  · rintro ⟨m', hm'⟩
    exact exists_compile_of_perm hp.symm (fun item => (hi item).symm) hm'
  · intro m m' hm hm' contents size head
    have hsame := Program.sameRules_of_perm hp (compile_eq_ok.mp hm).2 (compile_eq_ok.mp hm').2
    exact runsLike_of_inLockStep hsame.inLockStep (start_alike hsame) contents size head

section

attribute [local instance] Host.usual

/-- The sample program with its rules in another order, a wildcard before the blank, and a blank line
between them. -/
theorem compile_reordered_evens : ∃ m m',
    ((Text.lines Sample.evens).filter fun text => !Text.blankLine text).Perm
      ((Text.lines "O,* -> E,*,r\nE,* -> O,*,r\n \t\nS,* -> E,*,r\nO,_ -> hr,*,s\nE,_ -> ha,*,s").filter
        fun text => !Text.blankLine text) ∧
    (∀ item, item ∈ Alphabet.itemsOf "ab" ↔ item ∈ Alphabet.itemsOf "bab") ∧
    compile Sample.evens (Alphabet.itemsOf "ab") = .ok m ∧
    compile "O,* -> E,*,r\nE,* -> O,*,r\n \t\nS,* -> E,*,r\nO,_ -> hr,*,s\nE,_ -> ha,*,s"
      (Alphabet.itemsOf "bab") = .ok m' ∧
    ∀ contents size head, m.RunsLike m' contents size head := by
  have hp : ((Text.lines Sample.evens).filter fun text => !Text.blankLine text).Perm
      ((Text.lines "O,* -> E,*,r\nE,* -> O,*,r\n \t\nS,* -> E,*,r\nO,_ -> hr,*,s\nE,_ -> ha,*,s").filter
        fun text => !Text.blankLine text) := by decide +kernel
  have hi : ∀ item, item ∈ Alphabet.itemsOf "ab" ↔ item ∈ Alphabet.itemsOf "bab" := by
    have hab : symbolsOf "ab" = ["a", "b"] := by decide +kernel
    have hbab : symbolsOf "bab" = ["b", "a", "b"] := by decide +kernel
    intro item
    rw [Alphabet.itemsOf, Alphabet.itemsOf, hab, hbab]
    simp only [List.map_cons, List.map_nil, List.mem_cons, List.not_mem_nil, or_false]
    constructor
    · rintro (h | h)
      exacts [.inr (.inl h), .inl h]
    · rintro (h | h | h)
      exacts [.inr h, .inl h, .inr h]
  obtain ⟨m, hm⟩ := @Sample.exists_machine Sample.evens "ab" (by decide +kernel)
  obtain ⟨hiff, hruns⟩ := compile_reordered hp hi
  obtain ⟨m', hm'⟩ := hiff.mp ⟨m, hm⟩
  exact ⟨m, m', hp, hi, hm, hm', hruns m m' hm hm'⟩

end

end Machine

end TapeMachine
