import TapeMachine.Inspector
import TapeMachine.Proofs.Roundtrip.Program
import TapeMachine.Proofs.Safety
import TapeMachine.Sample

/-!
# The inspector's table as a LaTeX array

In an array an ampersand ends a cell, braces group, and a line end would break a row in two. The texts in
the cells are letters and names that a program is free to choose, and they are put there as they are. So
the array is well-formed exactly if they hold none of these, or only braces that fit together along a
line.

## Main statements

* `Inspector.depthAfter_filter` — only braces matter to how deep they are nested
* `Inspector.count_latexLine`, `Inspector.balanced_latexLine` — separators and braces of a line, counted
  from its texts
* `Inspector.lines_latex` — the lines of an array
* `Inspector.latex_wellFormed_iff` — which machines have a well-formed array
* `Inspector.ampersand_letter` — a letter that ends a cell
-/

namespace TapeMachine

/-! ## Lines of joined texts -/

namespace Text

theorem lines_append_newline (s t : String) : lines (s ++ "\n" ++ t) = lines s ++ lines t := by
  have hlist : (s ++ "\n" ++ t).toList = s.toList ++ '\n' :: t.toList := by simp
  unfold lines
  rw [hlist, List.splitOn_append_cons_self, List.map_append]

/-- Texts that are joined by line ends have the lines of each. -/
theorem lines_intercalate : ∀ {texts : List String}, texts ≠ [] →
    lines (String.intercalate "\n" texts) = texts.flatMap lines
  | [s], _ => by rw [String.intercalate_singleton, List.flatMap_singleton]
  | s :: t :: texts, _ => by
    rw [String.intercalate_cons_cons, lines_append_newline, lines_intercalate (List.cons_ne_nil t texts),
      ← List.flatMap_cons]

theorem lines_of_no_newline {s : String} (h : '\n' ∉ s.toList) : lines s = [s] := by
  rw [lines, List.splitOn_eq_singleton h, List.map_singleton, String.ofList_toList]

theorem length_lines_eq_one {s : String} : (lines s).length = 1 ↔ '\n' ∉ s.toList := by
  constructor
  · intro h hm
    obtain ⟨front, back, hs⟩ := List.append_of_mem hm
    have hlines : (lines s).length = (front.splitOn '\n').length + (back.splitOn '\n').length := by
      rw [lines, hs, List.splitOn_append_cons_self, List.length_map, List.length_append]
    have hpos : ∀ cs : List Char, 0 < (cs.splitOn '\n').length :=
      fun cs => List.length_pos_iff.mpr (List.splitOn_ne_nil '\n' cs)
    have hfront := hpos front
    have hback := hpos back
    omega
  · intro h
    rw [lines_of_no_newline h]
    rfl

/-- The characters of a text between two others. -/
theorem mem_toList_between {c : Char} {a s b : String} :
    c ∈ (a ++ s ++ b).toList ↔ c ∈ a.toList ∨ c ∈ s.toList ∨ c ∈ b.toList := by
  rw [String.toList_append, String.toList_append, List.mem_append, List.mem_append, or_assoc]

theorem filter_toList_between {p : Char → Bool} {a s b : String} : (a ++ s ++ b).toList.filter p =
    a.toList.filter p ++ s.toList.filter p ++ b.toList.filter p := by
  rw [String.toList_append, String.toList_append, List.filter_append, List.filter_append]

theorem count_toList_between {c : Char} {a s b : String} : (a ++ s ++ b).toList.count c =
    a.toList.count c + s.toList.count c + b.toList.count c := by
  rw [String.toList_append, String.toList_append, List.count_append, List.count_append]

end Text

namespace Inspector

/-! ## Braces -/

/-- How many braces are open behind a character; none may be closed that is not open. -/
def nest (depth : Nat) (c : Char) : Option Nat :=
  if c = '\x7b' then some (depth + 1)
  else if c = '\x7d' then (if depth = 0 then none else some (depth - 1))
  else some depth

/-- How many braces are open behind a text. -/
def depthAfter (depth : Nat) (cs : List Char) : Option Nat := cs.foldlM nest depth

/-- Each brace that is opened is closed, and no other. -/
def Balanced (cs : List Char) : Prop := depthAfter 0 cs = some 0

instance (cs : List Char) : Decidable (Balanced cs) := inferInstanceAs (Decidable (_ = _))

def isBrace (c : Char) : Bool := c == '\x7b' || c == '\x7d'

theorem nest_of_not_brace {c : Char} (h : isBrace c = false) (depth : Nat) :
    nest depth c = some depth := by
  simp only [isBrace, Bool.or_eq_false_iff, beq_eq_false_iff_ne] at h
  rw [nest, if_neg h.1, if_neg h.2]

/-- Only braces matter to how deep they are nested. -/
theorem depthAfter_filter (depth : Nat) (cs : List Char) :
    depthAfter depth (cs.filter isBrace) = depthAfter depth cs := by
  unfold depthAfter
  induction cs generalizing depth with
  | nil => rfl
  | cons c cs ih =>
    cases hc : isBrace c with
    | true =>
      rw [List.filter_cons_of_pos hc, List.foldlM_cons, List.foldlM_cons]
      exact congrArg (nest depth c >>= ·) (funext ih)
    | false =>
      rw [List.filter_cons_of_neg (by simp [hc]), List.foldlM_cons, nest_of_not_brace hc, ih]
      rfl

theorem balanced_congr {cs cs' : List Char} (h : cs.filter isBrace = cs'.filter isBrace) :
    Balanced cs ↔ Balanced cs' := by
  unfold Balanced
  rw [← depthAfter_filter 0 cs, h, depthAfter_filter]

/-- A text in braces. -/
def braced (s : String) : List Char := '\x7b' :: (s.toList ++ ['\x7d'])

/-- Texts without braces, each in its own, are balanced. -/
theorem balanced_flatMap_braced {texts : List String}
    (h : ∀ t ∈ texts, ∀ c ∈ t.toList, isBrace c = false) : Balanced (texts.flatMap braced) := by
  unfold Balanced
  induction texts with
  | nil => rfl
  | cons t texts ih =>
    have hone : (braced t).filter isBrace = ['\x7b', '\x7d'] := by
      have hnone : t.toList.filter isBrace = [] :=
        List.filter_eq_nil_iff.mpr fun c hc => by simp [h t List.mem_cons_self c hc]
      rw [braced, List.filter_cons_of_pos (by decide), List.filter_append, hnone]
      rfl
    rw [← depthAfter_filter, List.flatMap_cons, List.filter_append, hone]
    show depthAfter 0 ((texts.flatMap braced).filter isBrace) = _
    rw [depthAfter_filter]
    exact ih fun x hx => h x (List.mem_cons_of_mem _ hx)

/-! ## Lines of an array -/

theorem toList_latexText (t : String) : (latexText t).toList = "\\text".toList ++ braced t := by
  unfold latexText braced
  simp

/-- What stands before a text in a line: a separator, unless the text is the first. -/
theorem toList_latexLine (s : String) (texts : List String) : (latexLine (s :: texts)).toList =
    (latexText s).toList ++ texts.flatMap (fun t => " & ".toList ++ (latexText t).toList) ++
      " \\\\".toList := by
  have hjoin : ∀ (s : String) (texts : List String),
      (String.intercalate " & " ((s :: texts).map latexText)).toList =
        (latexText s).toList ++ texts.flatMap fun t => " & ".toList ++ (latexText t).toList := by
    intro s texts
    induction texts generalizing s with
    | nil => simp
    | cons t texts ih =>
      have hmap : (s :: t :: texts).map latexText = latexText s :: latexText t :: texts.map latexText := rfl
      rw [hmap, String.intercalate_cons_cons, String.toList_append, String.toList_append, ← List.map_cons,
        ih, List.flatMap_cons]
      simp
  rw [latexLine, String.toList_append, hjoin]

/-- A line has a separator between any two texts, and those in the texts. -/
theorem count_latexLine (s : String) (texts : List String) :
    (latexLine (s :: texts)).toList.count '&' =
      texts.length + ((s :: texts).flatMap String.toList).count '&' := by
  have htext : ∀ t : String, (latexText t).toList.count '&' = t.toList.count '&' := by
    intro t
    have hword : "\\text".toList.count '&' = 0 := by decide
    rw [toList_latexText, List.count_append, hword, braced]
    simp
  have hrest : ∀ texts : List String,
      (texts.flatMap fun t => " & ".toList ++ (latexText t).toList).count '&' =
        texts.length + (texts.flatMap String.toList).count '&' := by
    intro texts
    induction texts with
    | nil => rfl
    | cons t texts ih =>
      have hsep : " & ".toList.count '&' = 1 := by decide
      rw [List.flatMap_cons, List.flatMap_cons, List.count_append, List.count_append, List.count_append,
        ih, htext, hsep, List.length_cons]
      omega
  have hend : " \\\\".toList.count '&' = 0 := by decide
  rw [toList_latexLine, List.count_append, List.count_append, htext, hrest, hend, List.flatMap_cons,
    List.count_append]
  omega

/-- A line is balanced exactly if its texts are, each in braces. -/
theorem balanced_latexLine (s : String) (texts : List String) :
    Balanced (latexLine (s :: texts)).toList ↔ Balanced ((s :: texts).flatMap braced) := by
  refine balanced_congr ?_
  have htext : ∀ t : String, (latexText t).toList.filter isBrace = (braced t).filter isBrace := by
    intro t
    have hword : "\\text".toList.filter isBrace = [] := by decide
    rw [toList_latexText, List.filter_append, hword, List.nil_append]
  have hrest : (texts.flatMap fun t => " & ".toList ++ (latexText t).toList).filter isBrace =
      (texts.flatMap braced).filter isBrace := by
    have hsep : " & ".toList.filter isBrace = [] := by decide
    rw [List.filter_flatMap, List.filter_flatMap]
    refine List.flatMap_congr fun t _ => ?_
    rw [List.filter_append, hsep, List.nil_append, htext]
  have hend : " \\\\".toList.filter isBrace = [] := by decide
  rw [toList_latexLine, List.filter_append, List.filter_append, htext, hrest, hend, List.append_nil,
    List.flatMap_cons, List.filter_append]

theorem newline_mem_latexLine (s : String) (texts : List String) :
    '\n' ∈ (latexLine (s :: texts)).toList ↔ ∃ t ∈ s :: texts, '\n' ∈ t.toList := by
  have htext : ∀ t : String, '\n' ∈ (latexText t).toList ↔ '\n' ∈ t.toList := by
    intro t
    rw [toList_latexText, braced]
    simp
  rw [toList_latexLine]
  simp [htext]

/-! ## The texts of a table -/

section

variable {source : String} {items : List Json} {m : Machine} {s : State}

/-- The texts that a table is made of and that a program is free to choose: letters, and names of the
states that a run can enter. -/
def chosen (m : Machine) : List String := m.alphabet ++ m.reachable.map State.name

/-- A character of the table that no program chose. -/
def isFixed (c : Char) : Bool := "-LRS*har".toList.contains c

/-- A cell is a write, a movement and a name, or stands for a missing rule. -/
theorem of_mem_cell {symbol : Symbol} {c : Char} (h : c ∈ (cell s symbol).toList) :
    isFixed c = true ∨ ∃ e ∈ s.rules.entries, c ∈ e.2.write.toList ∨ c ∈ e.2.next.toList := by
  unfold cell at h
  cases hf : s.rules.find? symbol with
  | none =>
    rw [hf] at h
    obtain rfl : c = '-' := List.mem_singleton.mp h
    exact Or.inl (by decide)
  | some t =>
    have he := Table.find?_eq_some.mp hf
    rw [hf, Option.map_some, Option.getD_some, Transition.short, String.toList_append,
      String.toList_append, List.mem_append, List.mem_append] at h
    rcases h with (hw | hm) | hn
    · exact Or.inr ⟨_, he, Or.inl hw⟩
    · have hcapital : ∀ move : Move, move.capital.toList.all isFixed = true := by
        intro move
        cases move <;> decide
      exact Or.inl (List.all_eq_true.mp (hcapital t.move) c hm)
    · exact Or.inr ⟨_, he, Or.inr hn⟩

/-- A row is a name and cells. -/
theorem mem_row {symbols : List Symbol} {t : String} (h : t ∈ row symbols s) :
    t = s.name ∨ ∃ symbol ∈ symbols, t = cell s symbol := by
  rcases List.mem_cons.mp h with rfl | h
  · exact Or.inl rfl
  · obtain ⟨symbol, hsymbol, rfl⟩ := List.mem_map.mp h
    exact Or.inr ⟨symbol, hsymbol, rfl⟩

/-- The characters of a table are fixed, or they are those of letters and names. -/
theorem of_mem_texts {texts : List String} (h : texts ∈ symbols m :: rows m) {t : String} (ht : t ∈ texts)
    {c : Char} (hc : c ∈ t.toList) : isFixed c = true ∨ ∃ x ∈ chosen m, c ∈ x.toList := by
  have hletter : ∀ {x : Symbol}, x = Symbol.wildcard ∨ x ∈ m.alphabet → c ∈ x.toList →
      isFixed c = true ∨ ∃ x ∈ chosen m, c ∈ x.toList := by
    rintro x (rfl | hx) hc
    · obtain rfl : c = '*' := List.mem_singleton.mp hc
      exact Or.inl (by decide)
    · exact Or.inr ⟨x, List.mem_append_left _ hx, hc⟩
  have hname : ∀ {s : State}, s ∈ m.reachable → c ∈ s.name.toList →
      isFixed c = true ∨ ∃ x ∈ chosen m, c ∈ x.toList :=
    fun hs hc => Or.inr ⟨_, List.mem_append_right _ (List.mem_map_of_mem hs), hc⟩
  rcases List.mem_cons.mp h with rfl | h
  · rw [symbols, List.mem_append, List.mem_singleton] at ht
    exact hletter ht.symm hc
  · obtain ⟨s, hs, rfl⟩ := List.mem_map.mp h
    rcases mem_row ht with rfl | ⟨symbol, -, rfl⟩
    · exact hname hs hc
    · rcases of_mem_cell hc with hfixed | ⟨e, he, hw | hn⟩
      · exact Or.inl hfixed
      · exact hletter (m.validOver.writes s (Program.mem_reachable_iff.mp hs).1 e he) hw
      · by_cases hh : isHalting e.2.next = false
        · obtain ⟨s', hs', hf⟩ := Machine.exists_next hs he hh
          rw [← (Program.find?_eq_some.mp hf).2] at hn
          exact hname hs' hn
        · left
          simp only [isHalting, Bool.not_eq_false, Bool.or_eq_true, decide_eq_true_eq] at hh
          have hall : acceptName.toList.all isFixed = true ∧ rejectName.toList.all isFixed = true := by
            decide
          rcases hh with hh | hh <;> rw [hh] at hn
          · exact List.all_eq_true.mp hall.1 c hn
          · exact List.all_eq_true.mp hall.2 c hn

/-- A name, a write and a next state stand in the text of a rule. -/
theorem newline_not_mem_rule (hm : Machine.compile source items = .ok m) (hs : s ∈ m.reachable)
    {e : Symbol × Transition} (he : e ∈ s.rules.entries) :
    '\n' ∉ s.name.toList ∧ '\n' ∉ e.2.write.toList ∧ '\n' ∉ e.2.next.toList := by
  have hrule : (⟨s.name, e.1, e.2⟩ : Rule) ∈ m.program.rules := List.mem_flatMap.mpr
    ⟨s, (Program.mem_reachable_iff.mp hs).1, State.mem_ruleList.mpr ⟨rfl, he⟩⟩
  have hone := (Program.printable_of_read (Machine.compile_eq_ok.mp hm).2 _ hrule).2
  rw [Rule.OneLine, Rule.toList_text] at hone
  refine ⟨fun h => hone ?_, fun h => hone ?_, fun h => hone ?_⟩ <;> simp [h]

/-- No text of a row has a line end in it: all of them were read from lines of the program. -/
theorem newline_not_mem_row (hm : Machine.compile source items = .ok m) (hs : s ∈ m.reachable) {t : String}
    (ht : t ∈ row (symbols m) s) : '\n' ∉ t.toList := by
  have hblank : Symbol.blank ∈ m.alphabet := (Alphabet.of_ofItems (Machine.compile_eq_ok.mp hm).1).1
  obtain ⟨e, he⟩ : ∃ e, e ∈ s.rules.entries := by
    obtain ⟨t, hl⟩ := Option.ne_none_iff_exists'.mp (Machine.lookup_ne_none hs hblank)
    rcases State.of_lookup hl with he | he <;> exact ⟨_, he⟩
  intro hn
  rcases mem_row ht with rfl | ⟨symbol, -, rfl⟩
  · exact (newline_not_mem_rule hm hs he).1 hn
  · rcases of_mem_cell hn with hfixed | ⟨e, he, hw | hnext⟩
    · exact absurd hfixed (by decide)
    · exact (newline_not_mem_rule hm hs he).2.1 hw
    · exact (newline_not_mem_rule hm hs he).2.2 hnext

/-! ## Well-formed arrays -/

/-- The first line of an array: a column for the names, and one for each symbol. -/
def specLine (columns : Nat) : String :=
  "\\begin\x7barray\x7d\x7bc|" ++ String.ofList (List.replicate columns 'c') ++ "\x7d"

/-- The line of an array that names its columns. -/
def headerLine (symbols : List Symbol) : String := "State/Symbol & " ++ latexLine symbols ++ " \\hline"

def lastLine : String := "\\end\x7barray\x7d"

/-- A line of an array with so many columns beside that of the names. -/
structure LineOf (columns : Nat) (line : String) : Prop where
  separators : line.toList.count '&' = columns
  braces : Balanced line.toList

/-- An array has a line for each row, and one above them that names the columns. -/
def ArrayOf (columns rows : Nat) (text : String) : Prop := ∃ header body,
  Text.lines text = specLine columns :: header :: (body ++ [lastLine]) ∧ body.length = rows ∧
    ∀ line ∈ header :: body, LineOf columns line

theorem latex_eq (symbols : List Symbol) (rows : List (List String)) : latex symbols rows =
    String.intercalate "\n" ([specLine symbols.length, headerLine symbols] ++ rows.map latexLine ++
      [lastLine]) := rfl

theorem newline_not_mem_specLine (columns : Nat) : '\n' ∉ (specLine columns).toList := by
  have hcolumns : '\n' ∉ (String.ofList (List.replicate columns 'c')).toList := by
    rw [String.toList_ofList, List.mem_replicate]
    exact fun h => absurd h.2 (by decide)
  intro h
  rcases Text.mem_toList_between.mp h with h | h | h
  · exact absurd h (by decide)
  · exact hcolumns h
  · exact absurd h (by decide)

/-- There is a column at least: that of the wildcard. -/
theorem exists_symbols_eq (m : Machine) : ∃ first rest, symbols m = first :: rest :=
  List.exists_cons_of_ne_nil (List.append_ne_nil_of_right_ne_nil _ (List.cons_ne_nil _ _))

/-- The header has a line end in it exactly if a letter is one. -/
theorem newline_mem_headerLine (hm : Machine.compile source items = .ok m) :
    '\n' ∈ (headerLine (symbols m)).toList ↔ "\n" ∈ m.alphabet := by
  have hframe : '\n' ∈ (headerLine (symbols m)).toList ↔ '\n' ∈ (latexLine (symbols m)).toList := by
    have hfront : '\n' ∉ "State/Symbol & ".toList := by decide
    have hend : '\n' ∉ " \\hline".toList := by decide
    exact Text.mem_toList_between.trans ((or_iff_right hfront).trans (or_iff_left hend))
  have hletter : ∀ x ∈ m.alphabet, '\n' ∈ x.toList ↔ x = "\n" := by
    intro x hx
    have hlength := ((Alphabet.of_ofItems (Machine.compile_eq_ok.mp hm).1).2 x hx).1
    rw [← String.length_toList, List.length_eq_one_iff] at hlength
    obtain ⟨c, hc⟩ := hlength
    rw [← String.toList_inj, hc, List.mem_singleton]
    simp [eq_comm]
  obtain ⟨first, rest, hsymbols⟩ := exists_symbols_eq m
  rw [hframe, hsymbols, newline_mem_latexLine, ← hsymbols]
  constructor
  · rintro ⟨t, ht, hn⟩
    rw [symbols, List.mem_append, List.mem_singleton] at ht
    rcases ht with ht | rfl
    · exact (hletter t ht).mp hn ▸ ht
    · exact absurd hn (by decide)
  · exact fun h => ⟨"\n", List.mem_append_left _ h, by decide⟩

/-- The lines of the array of a machine: a letter may break the header, and nothing breaks a row. -/
theorem lines_latex (hm : Machine.compile source items = .ok m) :
    Text.lines (latex (symbols m) (rows m)) = specLine (symbols m).length ::
      (Text.lines (headerLine (symbols m)) ++ ((rows m).map latexLine ++ [lastLine])) := by
  have hrows : ((rows m).map latexLine).flatMap Text.lines = (rows m).map latexLine := by
    have hone : ∀ line ∈ (rows m).map latexLine, Text.lines line = [line] := by
      intro line hline
      obtain ⟨texts, htexts, rfl⟩ := List.mem_map.mp hline
      obtain ⟨s, hs, rfl⟩ := List.mem_map.mp htexts
      refine Text.lines_of_no_newline fun hn => ?_
      obtain ⟨t, ht, hn⟩ := (newline_mem_latexLine _ _).mp hn
      exact newline_not_mem_row hm hs ht hn
    rw [List.flatMap_congr hone, List.flatMap_singleton']
  have hlast : Text.lines lastLine = [lastLine] := Text.lines_of_no_newline (by decide)
  rw [latex_eq, Text.lines_intercalate (by simp), List.flatMap_append, List.flatMap_append, hrows,
    List.flatMap_singleton, hlast, List.flatMap_cons, List.flatMap_singleton,
    Text.lines_of_no_newline (newline_not_mem_specLine _), List.append_assoc]
  rfl

theorem count_separator {n : Nat} {texts : List String} :
    n + (texts.flatMap String.toList).count '&' = n ↔ ∀ t ∈ texts, '&' ∉ t.toList := by
  rw [Nat.add_eq_left, List.count_eq_zero, List.mem_flatMap]
  simp only [not_exists, not_and]

/-- A row is a line of an array exactly if no text ends a cell and its braces fit together. -/
theorem lineOf_latexLine (s : String) (texts : List String) :
    LineOf texts.length (latexLine (s :: texts)) ↔
      (∀ t ∈ s :: texts, '&' ∉ t.toList) ∧ Balanced ((s :: texts).flatMap braced) := by
  rw [← balanced_latexLine, ← count_separator, ← count_latexLine]
  exact ⟨fun h => ⟨h.separators, h.braces⟩, fun h => ⟨h.1, h.2⟩⟩

/-- The header is a line of an array under the same conditions. -/
theorem lineOf_headerLine (s : String) (texts : List String) :
    LineOf (texts.length + 1) (headerLine (s :: texts)) ↔
      (∀ t ∈ s :: texts, '&' ∉ t.toList) ∧ Balanced ((s :: texts).flatMap braced) := by
  have hcount : (headerLine (s :: texts)).toList.count '&' =
      texts.length + 1 + ((s :: texts).flatMap String.toList).count '&' := by
    have hfront : "State/Symbol & ".toList.count '&' = 1 := by decide
    have hend : " \\hline".toList.count '&' = 0 := by decide
    have hbetween := @Text.count_toList_between '&' "State/Symbol & " (latexLine (s :: texts)) " \\hline"
    rw [count_latexLine, hfront, hend] at hbetween
    exact hbetween.trans (by omega)
  have hbraces : Balanced (headerLine (s :: texts)).toList ↔ Balanced (latexLine (s :: texts)).toList := by
    have hfront : "State/Symbol & ".toList.filter isBrace = [] := by decide
    have hend : " \\hline".toList.filter isBrace = [] := by decide
    have hbetween :=
      @Text.filter_toList_between isBrace "State/Symbol & " (latexLine (s :: texts)) " \\hline"
    rw [hfront, hend, List.append_nil, List.nil_append] at hbetween
    exact balanced_congr hbetween
  constructor
  · intro h
    exact ⟨count_separator.mp (hcount.symm.trans h.separators),
      (balanced_latexLine s texts).mp (hbraces.mp h.braces)⟩
  · rintro ⟨hplain, hbalanced⟩
    exact ⟨hcount.trans (count_separator.mpr hplain),
      hbraces.mpr ((balanced_latexLine s texts).mpr hbalanced)⟩

/-- What the letters and names of a machine must be like for its array to be well-formed. -/
structure Tame (m : Machine) : Prop where
  no_newline : "\n" ∉ m.alphabet
  no_separator : ∀ x ∈ chosen m, '&' ∉ x.toList
  /-- Along each line, what braces are in its texts fit together, each text being in braces itself. -/
  balanced : ∀ texts ∈ symbols m :: rows m, Balanced (texts.flatMap braced)

/-- In a tame machine every line is one of an array. -/
theorem Tame.lineOf (h : Tame m) :
    ∀ line ∈ headerLine (symbols m) :: (rows m).map latexLine, LineOf (symbols m).length line := by
  have hplain : ∀ texts ∈ symbols m :: rows m, ∀ t ∈ texts, '&' ∉ t.toList := by
    intro texts htexts t ht hc
    rcases of_mem_texts htexts ht hc with hfixed | ⟨x, hx, hc⟩
    · exact absurd hfixed (by decide)
    · exact h.no_separator x hx hc
  intro line hline
  rcases List.mem_cons.mp hline with rfl | hline
  · have hheader := hplain _ List.mem_cons_self
    have hbalanced := h.balanced _ List.mem_cons_self
    obtain ⟨first, rest, hsymbols⟩ := exists_symbols_eq m
    rw [hsymbols] at hheader hbalanced ⊢
    exact (lineOf_headerLine first rest).mpr ⟨hheader, hbalanced⟩
  · obtain ⟨texts, htexts, rfl⟩ := List.mem_map.mp hline
    have hrow := hplain _ (List.mem_cons_of_mem _ htexts)
    have hbalanced := h.balanced _ (List.mem_cons_of_mem _ htexts)
    obtain ⟨s, -, rfl⟩ := List.mem_map.mp htexts
    rw [← List.length_map (cell s)]
    exact (lineOf_latexLine s.name _).mpr ⟨hrow, hbalanced⟩

/-- The texts of the lines hold all that is chosen. -/
theorem tame_of_lineOf (hnewline : "\n" ∉ m.alphabet)
    (h : ∀ line ∈ headerLine (symbols m) :: (rows m).map latexLine, LineOf (symbols m).length line) :
    Tame m := by
  have hheader : (∀ t ∈ symbols m, '&' ∉ t.toList) ∧ Balanced ((symbols m).flatMap braced) := by
    have hline := h _ List.mem_cons_self
    obtain ⟨first, rest, hsymbols⟩ := exists_symbols_eq m
    rw [hsymbols] at hline ⊢
    exact (lineOf_headerLine first rest).mp hline
  have hrow : ∀ s ∈ m.reachable, (∀ t ∈ row (symbols m) s, '&' ∉ t.toList) ∧
      Balanced ((row (symbols m) s).flatMap braced) := by
    intro s hs
    have hline := h _ (List.mem_cons_of_mem _ (List.mem_map_of_mem (List.mem_map_of_mem hs)))
    rw [← List.length_map (cell s)] at hline
    exact (lineOf_latexLine s.name _).mp hline
  refine ⟨hnewline, fun x hx => ?_, fun texts htexts => ?_⟩
  · rcases List.mem_append.mp hx with hx | hx
    · exact hheader.1 x (List.mem_append_left _ hx)
    · obtain ⟨s, hs, rfl⟩ := List.mem_map.mp hx
      exact (hrow s hs).1 s.name List.mem_cons_self
  · rcases List.mem_cons.mp htexts with rfl | htexts
    · exact hheader.2
    · obtain ⟨s, hs, rfl⟩ := List.mem_map.mp htexts
      exact (hrow s hs).2

/-- A machine whose letters and names have no line ends, ampersands and braces is tame. -/
theorem tame_of_plain (h : ∀ x ∈ chosen m, ∀ c ∈ x.toList, c ≠ '\n' ∧ c ≠ '&' ∧ isBrace c = false) :
    Tame m where
  no_newline hn := (h "\n" (List.mem_append_left _ hn) '\n' (by decide)).1 rfl
  no_separator x hx hc := (h x hx '&' hc).2.1 rfl
  balanced texts htexts := by
    refine balanced_flatMap_braced fun t ht c hc => ?_
    rcases of_mem_texts htexts ht hc with hfixed | ⟨x, hx, hc⟩
    · have hall : "-LRS*har".toList.all (fun c => !isBrace c) = true := by decide
      simpa using List.all_eq_true.mp hall c (List.contains_iff_mem.mp hfixed)
    · exact (h x hx c hc).2.2

/-- The array of a machine is well-formed, with one line for the header and one for each state that a run
can enter, as many separators in each as there are symbols, and balanced braces, exactly if its letters and
names are tame. Those without line ends, ampersands and braces are. -/
theorem latex_wellFormed_iff (hm : Machine.compile source items = .ok m) :
    (ArrayOf (symbols m).length m.reachable.length (latex (symbols m) (rows m)) ↔ Tame m) ∧
      ((∀ x ∈ chosen m, ∀ c ∈ x.toList, c ≠ '\n' ∧ c ≠ '&' ∧ isBrace c = false) → Tame m) := by
  refine ⟨⟨?_, fun htame => ?_⟩, tame_of_plain⟩
  · rintro ⟨header, body, hlines, hbody, hall⟩
    rw [lines_latex hm] at hlines
    have hrest := (List.cons.inj hlines).2
    -- There are as many lines as in an array, so the header is one of them and the rows are the others.
    have hone : (Text.lines (headerLine (symbols m))).length = 1 := by
      have hlength := congrArg List.length hrest
      simp only [List.length_append, List.length_cons, List.length_map, rows, hbody] at hlength
      omega
    have hunbroken := Text.length_lines_eq_one.mp hone
    rw [Text.lines_of_no_newline hunbroken, List.singleton_append, List.cons.injEq,
      List.append_cancel_right_eq] at hrest
    refine tame_of_lineOf (fun h => hunbroken ((newline_mem_headerLine hm).mpr h)) ?_
    rw [hrest.1, hrest.2]
    exact hall
  · refine ⟨headerLine (symbols m), (rows m).map latexLine, ?_, ?_, htame.lineOf⟩
    · have hunbroken := fun h => htame.no_newline ((newline_mem_headerLine hm).mp h)
      rw [lines_latex hm, Text.lines_of_no_newline hunbroken]
      rfl
    · rw [List.length_map, rows, List.length_map]

/-- The letters and names of a small program are plain, so its array is well-formed. -/
theorem latex_wellFormed_evens :
    ∃ m, Machine.compile Sample.evens (Alphabet.itemsOf Sample.evensLetters) = .ok m ∧
      ArrayOf (symbols m).length m.reachable.length (latex (symbols m) (rows m)) := by
  obtain ⟨m, hm, htest⟩ := @Sample.exists_machine_with Sample.evens Sample.evensLetters
    (fun m => (chosen m).all fun x => x.toList.all fun c => c != '\n' && c != '&' && !isBrace c)
    (by decide +kernel)
  have hplain : ∀ x ∈ chosen m, ∀ c ∈ x.toList, c ≠ '\n' ∧ c ≠ '&' ∧ isBrace c = false := by
    intro x hx c hc
    have hchar := List.all_eq_true.mp (List.all_eq_true.mp htest x hx) c hc
    simpa [and_assoc] using hchar
  have hiff := latex_wellFormed_iff hm
  exact ⟨m, hm, hiff.1.mpr (hiff.2 hplain)⟩

/-- A letter may be the character that ends a cell. The header of a program over it has more cells than
the array has columns. -/
theorem ampersand_letter :
    ∃ m, Machine.compile "S,* -> ha,*,s" (Alphabet.itemsOf "&") = .ok m ∧
      ¬ ArrayOf (symbols m).length m.reachable.length (latex (symbols m) (rows m)) := by
  obtain ⟨m, hm, htest⟩ := @Sample.exists_machine_with "S,* -> ha,*,s" "&"
    (fun m => ((Text.lines (latex (symbols m) (rows m)))[1]?.map fun line => line.toList.count '&') !=
      some (symbols m).length)
    (by decide +kernel)
  refine ⟨m, hm, ?_⟩
  rintro ⟨header, body, hlines, -, hall⟩
  have hcount := (hall header List.mem_cons_self).separators
  simp [hlines, hcount] at htest

end

end Inspector

end TapeMachine
