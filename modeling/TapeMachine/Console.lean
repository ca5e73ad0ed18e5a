/-!
# Console output

What the program shows the user, as data: lines of text with their style, and tables. A line may
hold marks such as `[red]…[/red]`; whether they are marks or text is part of the line.

## Main statements

* `Marks.foldlM_openAfter_of_unmarked` — a text without marks leaves open what is open
* `Marks.closesUnopened_styled` — a mark around a text without marks is closed where it is open
* `Event.plain_markup` — a plain line's brackets are text
* `Event.shown_plain` — a plain line is shown as it is
-/

namespace TapeMachine

/-! ## Marks -/

namespace Marks

/-- Whether what stands after a bracket begins a mark: with a lower-case letter, a slash, `#` or `@`. -/
def begins (cs : List Char) : Bool :=
  cs.head?.any fun c => c.isLower || c == '/' || c == '#' || c == '@'

/-- What stands after each bracket of a text, up to the next one. -/
def afterBrackets : List Char → List (List Char)
  | [] => []
  | c :: rest =>
    if c = '[' then rest.takeWhile (· ≠ '[') :: afterBrackets rest else afterBrackets rest

/-- A text in which no bracket begins a mark. -/
def unmarked (text : String) : Bool := (afterBrackets text.toList).all fun cs => !begins cs

/-- A name of a style: small words with blanks between them. -/
def isStyle (style : List Char) : Bool :=
  style.head?.any Char.isLower && style.all fun c => c.isLower || c == ' '

/-- A text in the marks of a style. -/
def styled (style text : String) : String := "[" ++ style ++ "]" ++ text ++ "[/" ++ style ++ "]"

/-- What is open after one more bracket, innermost first; none if it closes what is not open. -/
def openAfter (opened : List (List Char)) (cs : List Char) : Option (List (List Char)) :=
  if begins cs ∧ ']' ∈ cs then
    match cs.takeWhile (· ≠ ']') with
    | ['/'] => if opened = [] then none else some opened.tail
    | '/' :: name => if name ∈ opened then some (opened.erase name) else none
    | name => some (name :: opened)
  else some opened

/-- Whether a mark of a text closes what is not open. -/
def closesUnopened (text : String) : Bool :=
  ((afterBrackets text.toList).foldlM openAfter []).isNone

theorem takeWhile_append_cons {c : Char} (xs ys : List Char) :
    (xs ++ c :: ys).takeWhile (· ≠ c) = xs.takeWhile (· ≠ c) := by
  induction xs with
  | nil => simp
  | cons x xs ih => simp only [List.cons_append, List.takeWhile_cons, ih]

theorem takeWhile_append_of_not_mem {c : Char} {xs : List Char} (h : c ∉ xs) (ys : List Char) :
    (xs ++ ys).takeWhile (· ≠ c) = xs ++ ys.takeWhile (· ≠ c) := by
  induction xs with
  | nil => rfl
  | cons x xs ih =>
    rw [List.mem_cons, not_or] at h
    rw [List.cons_append, List.takeWhile_cons, if_pos (by simpa using Ne.symm h.1), ih h.2,
      List.cons_append]

theorem takeWhile_of_not_mem {c : Char} {xs : List Char} (h : c ∉ xs) :
    xs.takeWhile (· ≠ c) = xs := by simpa using takeWhile_append_of_not_mem h []

theorem afterBrackets_append (xs ys : List Char) :
    afterBrackets (xs ++ '[' :: ys) = afterBrackets xs ++ afterBrackets ('[' :: ys) := by
  induction xs with
  | nil => rfl
  | cons c rest ih =>
    rw [List.cons_append, afterBrackets, afterBrackets, ih, takeWhile_append_cons]
    split
    · rfl
    · rfl

theorem afterBrackets_append_of_not_mem {xs : List Char} (h : '[' ∉ xs) (ys : List Char) :
    afterBrackets (xs ++ ys) = afterBrackets ys := by
  induction xs with
  | nil => rfl
  | cons c rest ih =>
    rw [List.mem_cons, not_or] at h
    rw [List.cons_append, afterBrackets, if_neg (Ne.symm h.1), ih h.2]

theorem foldlM_openAfter_of_unmarked {pieces : List (List Char)}
    (h : pieces.all (fun cs => !begins cs) = true) (opened : List (List Char)) :
    pieces.foldlM openAfter opened = some opened := by
  induction pieces with
  | nil => rfl
  | cons cs rest ih =>
    rw [List.all_cons, Bool.and_eq_true, Bool.not_eq_true'] at h
    have hsame : openAfter opened cs = some opened := if_neg fun hb => by simp [h.1] at hb
    rw [List.foldlM_cons, hsame]
    exact ih h.2

theorem closesUnopened_of_unmarked {text : String} (h : unmarked text = true) :
    closesUnopened text = false := by
  rw [closesUnopened, foldlM_openAfter_of_unmarked h]
  rfl

/-- The characters of a style are those of its words. -/
theorem not_mem_of_isStyle {style : List Char} (h : isStyle style = true) {c : Char}
    (hc : (c.isLower || c == ' ') = false) : c ∉ style := by
  rw [isStyle, Bool.and_eq_true, List.all_eq_true] at h
  intro hm
  rw [h.2 c hm] at hc
  cases hc

/-- A mark of a style opens the style. -/
theorem openAfter_style {style : List Char} (h : isStyle style = true) (rest : List Char)
    (opened : List (List Char)) :
    openAfter opened (style ++ ']' :: rest) = some (style :: opened) := by
  have hname : (style ++ ']' :: rest).takeWhile (· ≠ ']') = style := by
    rw [takeWhile_append_cons, takeWhile_of_not_mem (not_mem_of_isStyle h (by decide))]
  have hslash : '/' ∉ style := not_mem_of_isStyle h (by decide)
  cases style with
  | nil => cases h
  | cons c cs =>
    have hlower : c.isLower = true := (Bool.and_eq_true _ _).mp h |>.1
    have hbegins : begins (c :: cs ++ ']' :: rest) = true ∧ ']' ∈ c :: cs ++ ']' :: rest :=
      ⟨by simp [begins, hlower], by simp⟩
    rw [openAfter, if_pos hbegins, hname]
    have hc : c ≠ '/' := fun he => hslash (by simp [he])
    split
    · next he => exact absurd (List.cons.inj he).1 hc
    · next he => exact absurd (List.cons.inj he).1 hc
    · rfl

/-- A mark that ends a style closes it. -/
theorem openAfter_end {style : List Char} (h : isStyle style = true) (opened : List (List Char)) :
    openAfter (style :: opened) ('/' :: style ++ [']']) = some opened := by
  have hclosing : ']' ∉ '/' :: style := by
    simpa using not_mem_of_isStyle h (c := ']') (by decide)
  have hname : ('/' :: style ++ [']']).takeWhile (· ≠ ']') = '/' :: style := by
    rw [takeWhile_append_cons, takeWhile_of_not_mem hclosing]
  rw [openAfter, if_pos ⟨by simp [begins], by simp⟩, hname]
  split
  · next he =>
    cases (List.cons.inj he).2
    cases h
  · next he =>
    cases (List.cons.inj he).2
    simp
  · next hne => exact absurd rfl (hne style)

/-- A mark around a text without marks is closed where it is open. -/
theorem closesUnopened_styled {style text : String} (h : isStyle style.toList = true)
    (ht : unmarked text = true) : closesUnopened (styled style text) = false := by
  have hlist : (styled style text).toList =
      ('[' :: (style.toList ++ ']' :: text.toList)) ++ '[' :: ('/' :: style.toList ++ [']']) := by
    simp [styled]
  have hopen : '[' ∉ style.toList ++ [']'] := by
    simpa using not_mem_of_isStyle h (c := '[') (by decide)
  have hend : '[' ∉ '/' :: style.toList ++ [']'] := by
    simpa using not_mem_of_isStyle h (c := '[') (by decide)
  have hfirst : (style.toList ++ ']' :: text.toList).takeWhile (· ≠ '[') =
      style.toList ++ ']' :: text.toList.takeWhile (· ≠ '[') := by
    rw [List.append_cons, takeWhile_append_of_not_mem hopen, ← List.append_cons]
  have hrest : afterBrackets (style.toList ++ ']' :: text.toList) = afterBrackets text.toList := by
    rw [List.append_cons, afterBrackets_append_of_not_mem hopen]
  have hlast : afterBrackets ('/' :: style.toList ++ [']']) = [] := by
    simpa [afterBrackets] using afterBrackets_append_of_not_mem hend []
  have hpieces : afterBrackets (styled style text).toList =
      (style.toList ++ ']' :: text.toList.takeWhile (· ≠ '[')) :: (afterBrackets text.toList ++
        ['/' :: style.toList ++ [']']]) := by
    rw [hlist, afterBrackets_append, afterBrackets, if_pos rfl, hrest, hfirst, afterBrackets,
      if_pos rfl, hlast, takeWhile_of_not_mem hend, List.cons_append]
  rw [closesUnopened, hpieces, List.foldlM_cons, openAfter_style h, Option.bind_eq_bind,
    Option.bind_some, List.foldlM_append, foldlM_openAfter_of_unmarked ht, Option.bind_eq_bind,
    Option.bind_some, List.foldlM_cons, openAfter_end h]
  rfl

end Marks

/-- One piece of output. -/
inductive Event where
  /-- A line; `markup` says whether brackets in it are marks, `ending` what follows it. -/
  | line (text : String) (style : Option String) (markup : Bool) (ending : String)
  | table (title : String) (columns : List String) (rows : List (List String))
  deriving DecidableEq, Repr

namespace Event

def marked (text : String) : Event := .line text none true "\n"

def plain (text : String) : Event := .line text none false "\n"

def styled (style text : String) : Event := .line text (some style) false "\n"

def raw (text : String) : Event := .line text none false ""

def markup : Event → Bool
  | .line _ _ markup _ => markup
  | .table .. => true

theorem plain_markup (text : String) : (plain text).markup = false := rfl

theorem markup_styled (style text : String) : (styled style text).markup = false := rfl

theorem markup_raw (text : String) : (raw text).markup = false := rfl

/-! ## Without a terminal's help -/

/-- What follows a mark that begins with a character, if there is a mark: lower-case letters, blanks
and a slash up to a closing bracket. -/
def afterMark? : List Char → Option (List Char)
  | [] => none
  | ']' :: rest => some rest
  | c :: rest => if c.isLower || c == ' ' || c == '/' then afterMark? rest else none

theorem length_afterMark? {cs rest : List Char} (h : afterMark? cs = some rest) :
    rest.length < cs.length := by
  fun_induction afterMark? cs with
  | case1 => simp at h
  | case2 r => simp at h; simp [h]
  | case3 c r _ _ ih => have := ih h; simp only [List.length_cons]; omega
  | case4 => simp at h

/-- A text without its marks. -/
def withoutMarks : List Char → List Char
  | [] => []
  | c :: cs =>
    match h : if c == '[' then afterMark? cs else none with
    | some rest =>
      have : rest.length < cs.length := by
        split at h
        · exact length_afterMark? h
        · simp at h
      withoutMarks rest
    | none => c :: withoutMarks cs
termination_by cs => cs.length

/-- What an event looks like where nothing but text can be shown. -/
def shown : Event → String
  | .line text _ true ending => String.ofList (withoutMarks text.toList) ++ ending
  | .line text _ false ending => text ++ ending
  | .table title columns rows =>
    String.join ((title :: (columns :: rows).map (String.intercalate " | ")).map (· ++ "\n"))

theorem shown_plain (text : String) : (plain text).shown = text ++ "\n" := rfl

end Event

end TapeMachine
