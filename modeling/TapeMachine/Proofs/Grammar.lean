import Mathlib.Data.List.Nodup
import TapeMachine.Proofs.Layout
import TapeMachine.Proofs.Roundtrip.Program

/-!
# The grammar of programs

A text is a program if every line with anything on it is laid out as a rule, and no two rules have
the same state and trigger. Reading it loses nothing: the rules of the program are those of the
lines, one for each line that is not blank, with its number. The invariant of the reader is that the
program lists the rules read so far; one more rule keeps it, or its key is there already.

## Main statements

* `Program.Lists.add`, `Program.of_add_error` — what one more rule does
* `Program.Lists.readLines`, `Program.exists_readLines` — what reading lines does
* `Program.exists_readAs_iff` — the lines that have rules with different keys on them
* `Program.exists_failing_line` — where reading fails
* `Program.read_decides_grammar` — which texts are read, as what, and where reading fails
-/

namespace TapeMachine

/-! ## Blank lines -/

namespace Text

def blankLine (text : String) : Bool := text.toList.all isBlank

theorem strip_eq_nil_iff {text : String} : strip text.toList = [] ↔ blankLine text = true := by
  rw [strip_eq_iff, blankLine, List.all_eq_true]
  constructor
  · rintro ⟨-, p, q, hp, hq, he⟩
    rw [List.append_nil] at he
    rw [he]
    exact hp.append hq
  · intro h
    exact ⟨⟨nofun, nofun⟩, text.toList, [], h, allBlank_nil, by simp⟩

end Text

/-- A line that is laid out is not blank. -/
theorem Layout.Spells.not_blank {l : Layout} {text : String} (h : l.Spells text) :
    Text.blankLine text = false := by
  have hm : '-' ∈ text.toList := by
    rw [h.2, Layout.chars]
    simp [arrow]
  rw [Text.blankLine, List.all_eq_false]
  exact ⟨'-', hm, by decide⟩

/-- What no two rules of a program have in common. -/
def Rule.key (r : Rule) : String × Symbol := (r.state, r.trigger)

/-! ## One more rule -/

/-- A rule is added to the state of its name, or makes a new state. -/
theorem mem_addRule {r : Rule} : ∀ {states states' : List State},
    addRule r states = .ok states' → (states.map State.name).Nodup → ∀ s' ∈ states',
      s'.name = r.state ∧ (r.state ∉ states.map State.name ∧ s'.ruleList = [r] ∨
        ∃ s ∈ states, s.name = r.state ∧ s'.ruleList = s.ruleList ++ [r]) ∨
      s'.name ≠ r.state ∧ s' ∈ states
  | [], states', h, _, s', hs' => by
    cases h
    rw [List.mem_singleton] at hs'
    subst hs'
    exact Or.inl ⟨rfl, Or.inl ⟨by simp, by simp [State.ruleList, Table.empty]⟩⟩
  | s :: rest, states', h, hnodup, s', hs' => by
    rw [List.map_cons, List.nodup_cons] at hnodup
    unfold addRule at h
    by_cases hn : s.name = r.state
    · rw [if_pos hn] at h
      split at h
      · cases h
      · cases h
        rcases List.mem_cons.mp hs' with rfl | hs'
        · refine Or.inl ⟨hn, Or.inr ⟨s, List.mem_cons_self, hn, ?_⟩⟩
          simp [State.ruleList, hn]
        · -- the other states have other names
          refine Or.inr ⟨?_, List.mem_cons_of_mem _ hs'⟩
          rintro he
          exact hnodup.1 (hn ▸ he ▸ List.mem_map_of_mem hs')
    · rw [if_neg hn] at h
      cases hr : addRule r rest with
      | error e =>
        rw [hr] at h
        cases h
      | ok rest' =>
        rw [hr] at h
        cases h
        rcases List.mem_cons.mp hs' with rfl | hs'
        · exact Or.inr ⟨hn, List.mem_cons_self⟩
        · rcases mem_addRule hr hnodup.2 s' hs' with
            ⟨he, ⟨hnew, hl⟩ | ⟨x, hx, hxn, hl⟩⟩ | ⟨he, hx⟩
          · refine Or.inl ⟨he, Or.inl ⟨?_, hl⟩⟩
            rw [List.map_cons, List.mem_cons, not_or]
            exact ⟨Ne.symm hn, hnew⟩
          · exact Or.inl ⟨he, Or.inr ⟨x, List.mem_cons_of_mem _ hx, hxn, hl⟩⟩
          · exact Or.inr ⟨he, List.mem_cons_of_mem _ hx⟩

theorem perm_addRule {r : Rule} : ∀ {states states' : List State},
    addRule r states = .ok states' →
      (states'.flatMap State.ruleList).Perm (states.flatMap State.ruleList ++ [r])
  | [], states', h => by
    cases h
    simp [State.ruleList, Table.empty]
  | s :: rest, states', h => by
    unfold addRule at h
    by_cases hn : s.name = r.state
    · rw [if_pos hn] at h
      split at h
      · cases h
      · cases h
        rw [List.flatMap_cons, List.flatMap_cons, List.append_assoc]
        have hl : State.ruleList { s with rules := s.rules.insert r.trigger r.transition ‹_› } =
            s.ruleList ++ [r] := by simp [State.ruleList, hn]
        rw [hl, List.append_assoc]
        exact List.perm_append_comm.append_left s.ruleList
    · rw [if_neg hn] at h
      cases hr : addRule r rest with
      | error e =>
        rw [hr] at h
        cases h
      | ok rest' =>
        rw [hr] at h
        cases h
        rw [List.flatMap_cons, List.flatMap_cons, List.append_assoc]
        exact (perm_addRule hr).append_left s.ruleList

/-- A rule is refused only if there is a rule with its key. -/
theorem key_mem_of_addRule_error {r : Rule} {first : Int} : ∀ {states : List State},
    addRule r states = .error first → r.key ∈ (states.flatMap State.ruleList).map Rule.key
  | [], h => by cases h
  | s :: rest, h => by
    rw [List.flatMap_cons, List.map_append, List.mem_append]
    unfold addRule at h
    by_cases hn : s.name = r.state
    · rw [if_pos hn] at h
      split at h
      · next t hf =>
        refine Or.inl (List.mem_map.mpr ⟨⟨s.name, r.trigger, t⟩, ?_, ?_⟩)
        · exact State.mem_ruleList.mpr ⟨rfl, Table.find?_eq_some.mp hf⟩
        · rw [Rule.key, hn]
          rfl
      · cases h
    · rw [if_neg hn] at h
      cases hr : addRule r rest with
      | error e => exact Or.inr (key_mem_of_addRule_error hr)
      | ok rest' =>
        rw [hr] at h
        cases h

namespace Program

variable {p q : Program} {rs : List Rule} {r : Rule} {texts : List String} {first : Int}

/-- The rules of a program have different keys. -/
theorem nodup_keys (p : Program) : (p.rules.map Rule.key).Nodup := by
  rw [rules, List.map_flatMap, List.nodup_flatMap]
  constructor
  · intro s _
    have htriggers : ((s.ruleList.map Rule.key).map Prod.snd).Nodup := by
      rw [List.map_map]
      exact s.triggers_ruleList ▸ s.rules.keys_nodup
    exact htriggers.of_map _
  · have hnames := p.nodup
    rw [List.nodup_iff_pairwise_ne, List.pairwise_map] at hnames
    refine hnames.imp ?_
    intro s s' hne k hk hk'
    obtain ⟨x, hx, rfl⟩ := List.mem_map.mp hk
    obtain ⟨x', hx', he⟩ := List.mem_map.mp hk'
    simp only [Rule.key, Prod.mk.injEq] at he
    exact hne ((State.mem_ruleList.mp hx).1 ▸ (State.mem_ruleList.mp hx').1 ▸ he.1.symm)

/-- The program has exactly the given rules: its states in the order in which the rules mention
them, and the rules of each state in their order. -/
structure Lists (p : Program) (rs : List Rule) : Prop where
  names : p.names = (rs.map Rule.state).eraseDups
  ruleList : ∀ s ∈ p.states, s.ruleList = rs.filter fun r => r.state = s.name
  perm : p.rules.Perm rs

theorem lists_empty : empty.Lists [] := ⟨rfl, nofun, .refl _⟩

theorem Lists.nodup (h : p.Lists rs) : (rs.map Rule.key).Nodup :=
  (h.perm.map Rule.key).nodup_iff.mp p.nodup_keys

theorem eraseDups_append_singleton (names : List String) (name : String) :
    (names ++ [name]).eraseDups =
      if name ∈ names then names.eraseDups else names.eraseDups ++ [name] := by
  rw [List.eraseDups_append]
  split
  · next h => simp [List.removeAll, h]
  · next h =>
    have hone : [name].eraseDups = [name] := by simp [List.eraseDups_cons]
    simp [List.removeAll, h, hone]

/-- A rule that is added goes to the end of the rules. -/
theorem Lists.add (h : p.Lists rs) (ha : p.add r = .ok q) : q.Lists (rs ++ [r]) := by
  have hadd := add_eq_ok.mp ha
  refine ⟨?_, ?_, (perm_addRule hadd).trans (h.perm.append_right [r])⟩
  · rw [names_add ha, h.names, List.map_append, List.map_singleton, eraseDups_append_singleton]
    simp only [List.mem_eraseDups]
  · intro s' hs'
    rw [List.filter_append]
    rcases mem_addRule hadd p.nodup s' hs' with ⟨he, ⟨hnew, hl⟩ | ⟨s, hs, hn, hl⟩⟩ | ⟨hne, hs⟩
    · have hnone : (rs.filter fun x => x.state = s'.name) = [] := by
        rw [List.filter_eq_nil_iff]
        intro x hx hxs
        refine hnew ?_
        have hmem : x.state ∈ p.names := by
          rw [h.names, List.mem_eraseDups]
          exact List.mem_map_of_mem hx
        rwa [of_decide_eq_true hxs, he] at hmem
      rw [hl, hnone, List.nil_append, List.filter_cons_of_pos (by simp [he]), List.filter_nil]
    · rw [hl, h.ruleList s hs, hn, he, List.filter_cons_of_pos (by simp), List.filter_nil]
    · rw [h.ruleList s' hs, List.filter_cons_of_neg (by simpa using hne.symm), List.filter_nil,
        List.append_nil]

/-- A rule is refused only if the rules have its key. -/
theorem Lists.of_add_error (h : p.Lists rs) {line : Int} (ha : p.add r = .error line) :
    r.key ∈ rs.map Rule.key := by
  refine (h.perm.map Rule.key).mem_iff.mp ?_
  unfold Program.add at ha
  split at ha
  · next hs => exact key_mem_of_addRule_error hs
  · cases ha

/-! ## Reading lines -/

/-- The lines with anything on them, with their numbers. -/
def ruleLines (numbered : List (String × Int)) : List (String × Int) :=
  numbered.filter fun e => !Text.blankLine e.1

/-- Numbered lines that read as rules, one for each line with anything on it. -/
def ReadAs (numbered : List (String × Int)) (rs : List Rule) : Prop :=
  List.Forall₂ (fun e r => Rule.read e.1 e.2 = .ok r) (ruleLines numbered) rs

theorem readAs_cons_blank {text : String} {line : Int} {rest : List (String × Int)}
    (h : Text.blankLine text = true) : ReadAs ((text, line) :: rest) rs ↔ ReadAs rest rs := by
  unfold ReadAs ruleLines
  rw [List.filter_cons_of_neg (by simp [h])]

theorem readAs_cons_rule {text : String} {line : Int} {rest : List (String × Int)}
    (h : Text.blankLine text = false) : ReadAs ((text, line) :: rest) rs ↔
      ∃ r rs', Rule.read text line = .ok r ∧ ReadAs rest rs' ∧ rs = r :: rs' := by
  unfold ReadAs ruleLines
  rw [List.filter_cons_of_pos (by simp [h]), List.forall₂_cons_left_iff]

/-- Reading lines appends their rules. -/
theorem Lists.readLines {numbered : List (String × Int)} (h : p.Lists rs)
    (hr : p.readLines numbered = .ok q) : ∃ new, ReadAs numbered new ∧ q.Lists (rs ++ new) := by
  induction numbered generalizing p rs with
  | nil =>
    cases hr
    exact ⟨[], .nil, by rwa [List.append_nil]⟩
  | cons e rest ih =>
    obtain ⟨text, line⟩ := e
    unfold Program.readLines at hr
    cases hl : p.readLine text line with
    | error e =>
      rw [hl] at hr
      cases hr
    | ok p' =>
      rw [hl] at hr
      rcases readLine_eq_ok.mp hl with ⟨hb, rfl⟩ | ⟨hb, r, hread, hadd⟩
      · obtain ⟨new, hnew, hq⟩ := ih h hr
        exact ⟨new, (readAs_cons_blank (Text.strip_eq_nil_iff.mp hb)).mpr hnew, hq⟩
      · obtain ⟨new, hnew, hq⟩ := ih (h.add hadd) hr
        rw [ne_eq, Text.strip_eq_nil_iff, Bool.not_eq_true] at hb
        refine ⟨r :: new, (readAs_cons_rule hb).mpr ⟨r, new, hread, hnew, rfl⟩, ?_⟩
        rwa [List.append_assoc, List.singleton_append] at hq

/-- Lines are read if they have rules on them with different keys. -/
theorem exists_readLines {numbered : List (String × Int)} {new : List Rule} (h : p.Lists rs)
    (hnew : ReadAs numbered new) (hnodup : ((rs ++ new).map Rule.key).Nodup) :
    ∃ q, p.readLines numbered = .ok q := by
  induction numbered generalizing p rs new with
  | nil => exact ⟨p, rfl⟩
  | cons e rest ih =>
    obtain ⟨text, line⟩ := e
    unfold Program.readLines
    cases hb : Text.blankLine text with
    | true =>
      have hl : p.readLine text line = .ok p :=
        readLine_eq_ok.mpr (Or.inl ⟨Text.strip_eq_nil_iff.mpr hb, rfl⟩)
      rw [hl]
      exact ih h ((readAs_cons_blank hb).mp hnew) hnodup
    | false =>
      obtain ⟨r, new, hread, hrest, rfl⟩ := (readAs_cons_rule hb).mp hnew
      cases hadd : p.add r with
      | error first =>
        -- the key would be there twice
        have hmem := h.of_add_error hadd
        rw [List.map_append, List.nodup_append] at hnodup
        exact absurd rfl (hnodup.2.2 _ hmem _ (by simp))
      | ok p' =>
        have hl : p.readLine text line = .ok p' := readLine_eq_ok.mpr (Or.inr
          ⟨fun he => by simp [Text.strip_eq_nil_iff.mp he] at hb, r, hread, hadd⟩)
        rw [hl]
        exact ih (h.add hadd) hrest (by rwa [List.append_assoc, List.singleton_append])

/-! ## Lines that have rules on them -/

/-- The grammar of lines: each is blank or laid out as a rule, and no two have rules with the same
key. -/
structure Grammatical (texts : List String) : Prop where
  lines : ∀ text ∈ texts, Text.blankLine text = true ∨ ∃ l : Layout, l.Spells text
  distinct : texts.Pairwise fun a b => ∀ l l' : Layout, l.Spells a → l'.Spells b →
    (l.state, l.trigger) ≠ (l'.state, l'.trigger)

/-- What the rules on lines say, their places apart, is what the layouts say. -/
theorem mem_map_iff {α : Type} {f : Rule → α}
    (hf : ∀ (l : Layout) (line line' : Int), f (l.rule line) = f (l.rule line')) {x : α}
    (h : ReadAs (number first texts) rs) :
    x ∈ rs.map f ↔ ∃ text ∈ texts, ∃ l : Layout, l.Spells text ∧ f (l.rule 0) = x := by
  induction texts generalizing first rs with
  | nil =>
    cases h
    simp
  | cons text texts ih =>
    rw [number] at h
    rw [List.exists_mem_cons_iff]
    cases hb : Text.blankLine text with
    | true =>
      rw [ih ((readAs_cons_blank hb).mp h)]
      refine (or_iff_right ?_).symm
      rintro ⟨l, hl, -⟩
      rw [hl.not_blank] at hb
      cases hb
    | false =>
      obtain ⟨r, rs', hread, hrest, rfl⟩ := (readAs_cons_rule hb).mp h
      rw [List.map_cons, List.mem_cons, ih hrest]
      refine or_congr_left ?_
      obtain ⟨l, hl, rfl⟩ := Layout.exists_spells hread
      constructor
      · rintro rfl
        exact ⟨l, hl, hf l 0 first⟩
      · rintro ⟨l', hl', rfl⟩
        rw [hl.unique hl']
        exact hf l' 0 first

/-- The keys of the rules on lines are those of the layouts. -/
theorem mem_keys_iff {key : String × Symbol} (h : ReadAs (number first texts) rs) :
    key ∈ rs.map Rule.key ↔ ∃ text ∈ texts, ∃ l : Layout, l.Spells text ∧
      (l.state, l.trigger) = key :=
  mem_map_iff (fun _ _ _ => rfl) h

/-- The lines have rules with different keys on them exactly if they are in the grammar. -/
theorem exists_readAs_iff : (∃ rs, ReadAs (number first texts) rs ∧ (rs.map Rule.key).Nodup) ↔
    Grammatical texts := by
  induction texts generalizing first with
  | nil => exact ⟨fun _ => ⟨nofun, .nil⟩, fun _ => ⟨[], .nil, .nil⟩⟩
  | cons text texts ih =>
    rw [number]
    cases hb : Text.blankLine text with
    | true =>
      simp only [readAs_cons_blank hb]
      rw [ih]
      constructor
      · rintro ⟨hl, hd⟩
        refine ⟨List.forall_mem_cons.mpr ⟨Or.inl hb, hl⟩, .cons ?_ hd⟩
        intro b _ l l' hs
        rw [hs.not_blank] at hb
        cases hb
      · rintro ⟨hl, hd⟩
        exact ⟨(List.forall_mem_cons.mp hl).2, (List.pairwise_cons.mp hd).2⟩
    | false =>
      constructor
      · rintro ⟨rs, h, hnodup⟩
        obtain ⟨r, rs', hread, hrest, rfl⟩ := (readAs_cons_rule hb).mp h
        rw [List.map_cons, List.nodup_cons] at hnodup
        obtain ⟨hl, hd⟩ := ih.mp ⟨rs', hrest, hnodup.2⟩
        obtain ⟨l, hs, rfl⟩ := Layout.exists_spells hread
        refine ⟨List.forall_mem_cons.mpr ⟨Or.inr ⟨l, hs⟩, hl⟩, .cons ?_ hd⟩
        intro b hbm k k' hk hk' he
        refine hnodup.1 ((mem_keys_iff hrest).mpr ⟨b, hbm, k', hk', ?_⟩)
        rw [← he, hk.unique hs]
        rfl
      · rintro ⟨hl, hd⟩
        rw [List.forall_mem_cons] at hl
        rw [List.pairwise_cons] at hd
        obtain ⟨rs', hrest, hnodup⟩ := (@ih (first + 1)).mpr ⟨hl.2, hd.2⟩
        obtain ⟨l, hs⟩ := hl.1.resolve_left (by simp [hb])
        refine ⟨l.rule first :: rs', (readAs_cons_rule hb).mpr ⟨_, _, hs.read first, hrest, rfl⟩, ?_⟩
        rw [List.map_cons, List.nodup_cons]
        refine ⟨fun hm => ?_, hnodup⟩
        obtain ⟨b, hbm, l', hs', he⟩ := (mem_keys_iff hrest).mp hm
        exact hd.1 b hbm l l' hs hs' he.symm

/-! ## Where reading fails -/

theorem readLines_append (xs ys : List (String × Int)) : p.readLines (xs ++ ys) =
    match p.readLines xs with
    | .error e => .error e
    | .ok q => q.readLines ys := by
  induction xs generalizing p with
  | nil => rfl
  | cons x xs ih =>
    obtain ⟨text, line⟩ := x
    rw [List.cons_append, Program.readLines, Program.readLines]
    cases p.readLine text line with
    | error e => rfl
    | ok p' => exact ih

/-- What is read from lines is read from the first of them. -/
theorem exists_readLines_of_append {xs ys : List (String × Int)}
    (h : p.readLines (xs ++ ys) = .ok q) : ∃ p', p.readLines xs = .ok p' := by
  rw [readLines_append] at h
  cases hx : p.readLines xs with
  | error e =>
    rw [hx] at h
    cases h
  | ok p' => exact ⟨p', rfl⟩

theorem line_of_readLine_error {text : String} {line : Int} {e : ParseError}
    (h : p.readLine text line = .error e) : e.line = line := by
  unfold readLine readRule at h
  split at h
  · cases h
  · cases hr : Rule.read text line with
    | error fault =>
      rw [hr] at h
      cases h
      rfl
    | ok r =>
      rw [hr] at h
      cases ha : p.add r with
      | error first =>
        simp only [ha, Except.map, Except.error.injEq] at h
        rw [← h]
      | ok q => simp [ha, Except.map] at h

/-- Reading fails at a line before which it did not fail. -/
theorem exists_failing_line {e : ParseError} (h : p.readLines (number first texts) = .error e) :
    ∃ before text after, texts = before ++ text :: after ∧ e.line = first + before.length ∧
      (∃ q, p.readLines (number first before) = .ok q) ∧
      p.readLines (number first (before ++ [text])) = .error e := by
  induction texts generalizing p first with
  | nil => cases h
  | cons text texts ih =>
    rw [number, Program.readLines] at h
    cases hl : p.readLine text first with
    | error e' =>
      rw [hl] at h
      cases h
      refine ⟨[], text, texts, rfl, ?_, ⟨p, rfl⟩, ?_⟩
      · rw [line_of_readLine_error hl, List.length_nil]
        omega
      · rw [List.nil_append, number, Program.readLines, hl]
    | ok p' =>
      rw [hl] at h
      obtain ⟨before, text', after, rfl, hline, ⟨q, hq⟩, herr⟩ := ih h
      refine ⟨text :: before, text', after, rfl, ?_, ⟨q, ?_⟩, ?_⟩
      · rw [hline, List.length_cons]
        omega
      · rw [number, Program.readLines, hl]
        exact hq
      · rw [List.cons_append, number, Program.readLines, hl]
        exact herr

/-! ## Whole texts -/

/-- The first lines of a text, as a text. -/
def firstLines (k : Nat) (source : String) : String :=
  String.intercalate "\n" ((Text.lines source).take k)

theorem not_mem_of_mem_lines {source text : String} (h : text ∈ Text.lines source) :
    '\n' ∉ text.toList := by
  obtain ⟨part, hpart, rfl⟩ := List.mem_map.mp h
  rw [String.toList_ofList]
  exact Text.not_mem_of_mem_splitOn hpart

theorem lines_firstLines {source : String} {k : Nat} (hk : 0 < k) :
    Text.lines (firstLines k source) = (Text.lines source).take k := by
  have hne : (Text.lines source).take k ≠ [] := by
    rw [Ne, List.take_eq_nil_iff, not_or]
    refine ⟨by omega, fun h => List.splitOn_ne_nil '\n' source.toList ?_⟩
    exact List.map_eq_nil_iff.mp h
  have hsplit : (firstLines k source).toList.splitOn '\n' =
      ((Text.lines source).take k).map String.toList := by
    refine Text.splitOn_eq_iff.mpr ⟨by simpa using hne, ?_, ?_⟩
    · intro x hx
      obtain ⟨text, htext, rfl⟩ := List.mem_map.mp hx
      exact not_mem_of_mem_lines (List.mem_of_mem_take htext)
    · rw [firstLines, String.toList_intercalate]
      rfl
  rw [Text.lines, hsplit, List.map_map]
  simp

/-- The first lines of a text are read like the lines among others. -/
theorem read_firstLines {source : String} {k : Nat} (hk : 0 < k) :
    read (firstLines k source) = empty.readLines (number 1 ((Text.lines source).take k)) := by
  rw [read, lines_firstLines hk]

/-- Which texts are programs, as what they are read, and where reading fails. A text is read exactly
if every line is blank or laid out as a rule and no two lines have rules with the same state and
trigger; a line has one layout only. Then there is one rule for each line that is not blank, with
the number of the line, and these are the rules of the program: its states stand in the order in
which the lines mention them, and the rules of each state in the order of the lines. Otherwise the
error is that of the first line up to which the text cannot be read by itself. -/
theorem read_decides_grammar (source : String) :
    ((∃ p, read source = .ok p) ↔
      (∀ text ∈ Text.lines source, Text.blankLine text = true ∨ ∃ l : Layout, l.Spells text) ∧
      (Text.lines source).Pairwise fun a b => ∀ l l' : Layout, l.Spells a → l'.Spells b →
        (l.state, l.trigger) ≠ (l'.state, l'.trigger)) ∧
    (∀ (text : String) (l l' : Layout), l.Spells text → l'.Spells text → l = l') ∧
    (∀ p, read source = .ok p → ∃ rs,
      List.Forall₂ (fun e r => ∃ l : Layout, l.Spells e.1 ∧ r = l.rule e.2)
        ((number 1 (Text.lines source)).filter fun e => !Text.blankLine e.1) rs ∧
      p.rules.Perm rs ∧ p.names = (rs.map Rule.state).eraseDups ∧
      ∀ s ∈ p.states, s.ruleList = rs.filter fun r => r.state = s.name) ∧
    ∀ e, read source = .error e → ∃ k : Nat, e.line = k ∧ k ≤ (Text.lines source).length ∧
      (∀ p, read (firstLines k source) ≠ .ok p) ∧
      ∀ j < k, ∃ p, read (firstLines j source) = .ok p := by
  refine ⟨?_, fun _ _ _ h h' => h.unique h', ?_, ?_⟩
  · have hgrammar : (∃ rs, ReadAs (number 1 (Text.lines source)) rs ∧ (rs.map Rule.key).Nodup) ↔
        Grammatical (Text.lines source) := exists_readAs_iff
    constructor
    · rintro ⟨p, hp⟩
      obtain ⟨rs, hrs, hlists⟩ := lists_empty.readLines hp
      obtain ⟨hl, hd⟩ := hgrammar.mp ⟨rs, hrs, hlists.nodup⟩
      exact ⟨hl, hd⟩
    · rintro ⟨hl, hd⟩
      obtain ⟨rs, hrs, hnodup⟩ := hgrammar.mpr ⟨hl, hd⟩
      exact exists_readLines lists_empty hrs hnodup
  · intro p hp
    obtain ⟨rs, hrs, hlists⟩ := lists_empty.readLines hp
    refine ⟨rs, hrs.imp ?_, hlists.perm, hlists.names, hlists.ruleList⟩
    intro e r hr
    obtain ⟨l, hl, he⟩ := Layout.exists_spells hr
    exact ⟨l, hl, he.symm⟩
  · intro e he
    obtain ⟨before, text, after, hlines, hline, ⟨q, hq⟩, herr⟩ := exists_failing_line he
    refine ⟨before.length + 1, by rw [hline]; omega, by rw [hlines]; simp, ?_, ?_⟩
    · intro p hp
      have htake : (Text.lines source).take (before.length + 1) = before ++ [text] := by
        rw [hlines, List.take_length_add_append, List.take_succ_cons, List.take_zero]
      rw [read_firstLines (by omega), htake, herr] at hp
      cases hp
    · intro j hj
      rcases Nat.eq_zero_or_pos j with rfl | hpos
      · exact ⟨empty, by rfl⟩
      · have htake : (Text.lines source).take j = before.take j := by
          rw [hlines, List.take_append_of_le_length (by omega)]
        rw [read_firstLines hpos, htake]
        rw [← List.take_append_drop j before, number_append] at hq
        exact exists_readLines_of_append hq

end Program

end TapeMachine
