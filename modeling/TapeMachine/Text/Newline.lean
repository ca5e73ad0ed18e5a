/-!
# Lines

Text files may end their lines in LF, CRLF or CR. Reading a file turns each of them into LF, and
only then are lines told apart. No other character ends a line.

## Main statements

* `unifyNewlines_of_no_cr` — a text without CR is read as it is
* `cr_not_mem_unifyNewlines` — no CR is left
-/

namespace TapeMachine.Text

/-- Every CRLF and every other CR becomes an LF. -/
def unifyNewlines : List Char → List Char
  | [] => []
  | '\r' :: '\n' :: rest => '\n' :: unifyNewlines rest
  | '\r' :: rest => '\n' :: unifyNewlines rest
  | c :: rest => c :: unifyNewlines rest

theorem unifyNewlines_of_no_cr {cs : List Char} (h : '\r' ∉ cs) : unifyNewlines cs = cs := by
  fun_induction unifyNewlines cs with
  | case1 => rfl
  | case2 => simp at h
  | case3 => simp at h
  | case4 c rest _ _ ih => simp [ih (fun hm => h (List.mem_cons_of_mem _ hm))]

theorem cr_not_mem_unifyNewlines (cs : List Char) : '\r' ∉ unifyNewlines cs := by
  fun_induction unifyNewlines cs with
  | case1 => simp
  | case2 rest ih => simp [ih]
  | case3 rest _ ih => simp [ih]
  | case4 c rest _ hc ih =>
    simp only [List.mem_cons, not_or]
    exact ⟨fun h => hc h.symm, ih⟩

/-- The lines of a text: the parts between its LFs, one more than there are LFs. -/
def lines (s : String) : List String := (s.toList.splitOn '\n').map String.ofList

/-- The lines of a text that end in an LF, and the last part unless it is empty. -/
def endedLines (s : String) : List String :=
  let all := lines s
  if all.getLast? = some "" then all.dropLast else all

end TapeMachine.Text
