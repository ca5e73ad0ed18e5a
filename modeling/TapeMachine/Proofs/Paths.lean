import Mathlib.Data.List.Basic
import TapeMachine.FileTree
import TapeMachine.Proofs.Pieces

/-!
# Where paths lead

A path under another is followed by following the other first, and then the names that were added.
The names that are followed on a path are those between its slashes that are not empty, so slashes
at the ends and repeated ones do not matter.

## Main statements

* `Path.steps_join` — a name under a path comes last
* `Path.steps_splitLast` — a path is what stands above its last name, and that name
* `Path.solidParts_tidy` — a tidy path has the names of the path
-/

namespace TapeMachine

namespace Path

/-! ## Parts -/

/-- The names between slashes, empty ones left out. -/
def solidParts (cs : List Char) : List String :=
  ((cs.splitOn '/').map String.ofList).filter (· ≠ "")

theorem steps_eq (path : String) :
    steps path = (if isAbsolute path then ["/"] else []) ++ solidParts path.toList := rfl

theorem solidParts_nil : solidParts [] = [] := by decide

theorem solidParts_slash (xs ys : List Char) :
    solidParts (xs ++ '/' :: ys) = solidParts xs ++ solidParts ys := by
  unfold solidParts
  rw [List.splitOn_append_cons_self, List.map_append, List.filter_append]

theorem solidParts_slashes {slashes : List Char} (h : ∀ c ∈ slashes, c = '/') (xs : List Char) :
    solidParts (xs ++ slashes) = solidParts xs := by
  induction slashes generalizing xs with
  | nil => rw [List.append_nil]
  | cons c slashes ih =>
    obtain rfl : c = '/' := h c List.mem_cons_self
    have hrest : ∀ c ∈ slashes, c = '/' := fun c hc => h c (List.mem_cons_of_mem _ hc)
    have hnil := ih hrest []
    rw [List.nil_append, solidParts_nil] at hnil
    rw [solidParts_slash, hnil, List.append_nil]

theorem solidParts_name {name : List Char} (hne : name ≠ []) (hs : '/' ∉ name) :
    solidParts name = [String.ofList name] := by
  unfold solidParts
  rw [List.splitOn_eq_singleton hs, List.map_singleton]
  refine List.filter_eq_self.mpr ?_
  intro x hx
  obtain rfl := List.mem_singleton.mp hx
  simpa using hne

/-! ## A name under a path -/

theorem isAbsolute_append {dir rest : String} (h : dir ≠ "") :
    isAbsolute (dir ++ rest) = isAbsolute dir := by
  unfold isAbsolute
  rw [String.toList_append, List.head?_append]
  cases hd : dir.toList with
  | nil => exact absurd hd (Text.ne_nil_of_ne_empty h)
  | cons c cs => rfl

theorem isAbsolute_of_no_slash {name : String} (hs : '/' ∉ name.toList) :
    isAbsolute name = false := by
  unfold isAbsolute
  cases hn : name.toList with
  | nil => rfl
  | cons c cs =>
    rw [hn, List.mem_cons, not_or] at hs
    simpa using Ne.symm hs.1

/-- A name under a path follows it, with a slash between unless there is one. -/
theorem toList_join {dir name : String} (hs : '/' ∉ name.toList) :
    ∃ gap, (join dir name).toList = dir.toList ++ gap ++ name.toList ∧ ∀ c ∈ gap, c = '/' := by
  unfold join
  rw [isAbsolute_of_no_slash hs, if_neg Bool.false_ne_true]
  split
  · exact ⟨[], by simp, by simp⟩
  · exact ⟨['/'], by simp, by simp⟩

/-- A path that ends in a name does not end in a slash. -/
theorem getLast?_join {dir name : String} (hne : name ≠ "") (hs : '/' ∉ name.toList) :
    (join dir name).toList.getLast? ≠ some '/' := by
  obtain ⟨gap, hj, -⟩ := @toList_join dir name hs
  intro hl
  rw [hj, List.getLast?_append_of_ne_nil _ (Text.ne_nil_of_ne_empty hne)] at hl
  exact hs (List.mem_of_getLast? hl)

/-- A name under a path that does not end in a slash. -/
theorem join_of_no_slash {dir name : String} (hd : dir ≠ "") (hl : dir.toList.getLast? ≠ some '/')
    (hs : '/' ∉ name.toList) : join dir name = dir ++ "/" ++ name := by
  rw [join, isAbsolute_of_no_slash hs, if_neg Bool.false_ne_true, if_neg (by simp [hd, hl])]

/-- A longer name under a path makes a longer path. -/
theorem utf8ByteSize_join_le {dir a b : String} (ha : '/' ∉ a.toList) (hb : '/' ∉ b.toList)
    (h : a.utf8ByteSize ≤ b.utf8ByteSize) :
    (join dir a).utf8ByteSize ≤ (join dir b).utf8ByteSize := by
  unfold join
  rw [isAbsolute_of_no_slash ha, isAbsolute_of_no_slash hb, if_neg Bool.false_ne_true,
    if_neg Bool.false_ne_true]
  split
  · rw [String.utf8ByteSize_append, String.utf8ByteSize_append]
    omega
  · rw [String.utf8ByteSize_append, @String.utf8ByteSize_append (dir ++ "/") b]
    omega

/-- A name under a path comes last. -/
theorem steps_join {dir name : String} (hd : dir ≠ "") (hne : name ≠ "") (hs : '/' ∉ name.toList) :
    steps (join dir name) = steps dir ++ [name] := by
  have hname : solidParts name.toList = [name] := by
    rw [solidParts_name (Text.ne_nil_of_ne_empty hne) hs, String.ofList_toList]
  have hslash : solidParts ((dir ++ "/" ++ name).toList) = solidParts dir.toList ++ [name] := by
    have he : (dir ++ "/" ++ name).toList = dir.toList ++ '/' :: name.toList := by simp
    rw [he, solidParts_slash, hname]
  unfold join
  rw [isAbsolute_of_no_slash hs, if_neg Bool.false_ne_true]
  by_cases hl : dir.toList.getLast? = some '/'
  · -- a slash stands at the end already
    obtain ⟨front, hf⟩ := List.getLast?_eq_some_iff.mp hl
    rw [if_pos (Or.inr hl), steps_eq, steps_eq, isAbsolute_append hd, String.toList_append, hf,
      List.append_assoc, List.singleton_append, solidParts_slash, hname, List.append_assoc]
    congr 2
    exact (solidParts_slashes (by simp) front).symm
  · rw [if_neg (by simp [hd, hl]), steps_eq, steps_eq, hslash, String.append_assoc,
      isAbsolute_append hd, List.append_assoc]

/-! ## The last name of a path -/

theorem eq_slash_of_mem_takeWhile {cs : List Char} :
    ∀ c ∈ cs.takeWhile (fun c => decide (c = '/')), c = '/' := by
  intro c hc
  simpa using List.all_eq_true.mp (@List.all_takeWhile _ _ cs) c hc

/-- A path is what stands above, slashes, the last name, and slashes. -/
theorem splitLast_spec (path : String) : ∃ before gap slashes : List Char,
    path.toList = before ++ (splitLast path).2.toList ++ slashes ∧
    before = (splitLast path).1.toList ++ gap ∧ (∀ c ∈ gap, c = '/') ∧ (∀ c ∈ slashes, c = '/') ∧
    '/' ∉ (splitLast path).2.toList ∧ (before ≠ [] → before.getLast? = some '/') := by
  let reversed := path.toList.reverse.dropWhile fun c => decide (c = '/')
  let before := reversed.dropWhile fun c => decide (c ≠ '/')
  let above := before.dropWhile fun c => decide (c = '/')
  have hpath : path.toList = before.reverse ++ (reversed.takeWhile fun c => decide (c ≠ '/')).reverse
      ++ (path.toList.reverse.takeWhile fun c => decide (c = '/')).reverse := by
    rw [← List.reverse_append, List.takeWhile_append_dropWhile, ← List.reverse_append,
      List.takeWhile_append_dropWhile, List.reverse_reverse]
  have hname : (splitLast path).2.toList =
      (reversed.takeWhile fun c => decide (c ≠ '/')).reverse := String.toList_ofList
  have habove : (splitLast path).1.toList =
      (if above.isEmpty then before else above).reverse := String.toList_ofList
  have hsolid : '/' ∉ (reversed.takeWhile fun c => decide (c ≠ '/')).reverse := by
    intro hm
    simpa using List.all_eq_true.mp List.all_takeWhile _ (List.mem_reverse.mp hm)
  have hends : ∀ cs : List Char, ∀ c ∈ (cs.takeWhile fun c => decide (c = '/')).reverse, c = '/' :=
    fun cs c hc => eq_slash_of_mem_takeWhile c (List.mem_reverse.mp hc)
  have hlast : before.reverse ≠ [] → before.reverse.getLast? = some '/' := by
    intro hne
    have hd := List.head?_dropWhile_not (fun c => decide (c ≠ '/')) reversed
    rw [List.getLast?_reverse]
    cases hb : before with
    | nil => exact absurd hb (by simpa using hne)
    | cons c rest =>
      have hh : (reversed.dropWhile fun c => decide (c ≠ '/')) = c :: rest := hb
      rw [hh] at hd
      simpa using hd
  rw [hname, habove]
  cases ha : above.isEmpty with
  | true => exact ⟨before.reverse, [], _, hpath, by simp, by simp, hends _, hsolid, hlast⟩
  | false =>
    refine ⟨before.reverse, _, _, hpath, ?_, hends before, hends _, hsolid, hlast⟩
    rw [if_neg Bool.false_ne_true, ← List.reverse_append, List.takeWhile_append_dropWhile]

theorem splitLast_of_no_slash {name : String} (hs : '/' ∉ name.toList) :
    (splitLast name).1 = "" := by
  obtain ⟨before, gap, slashes, hpath, hbefore, -, -, -, hlast⟩ := splitLast_spec name
  by_cases hb : before = []
  · rw [hb] at hbefore
    exact String.toList_eq_nil_iff.mp (List.append_eq_nil_iff.mp hbefore.symm).1
  · refine absurd ?_ hs
    rw [hpath, List.append_assoc]
    exact List.mem_append_left _ (List.mem_of_getLast? (hlast hb))

/-- A path with a last name and something above it is followed by following what stands above, and
then the name. -/
theorem steps_splitLast {path : String} (ha : (splitLast path).1 ≠ "")
    (hn : (splitLast path).2 ≠ "") :
    steps path = steps (splitLast path).1 ++ [(splitLast path).2] := by
  obtain ⟨before, gap, slashes, hpath, hbefore, hgap, hslashes, hsolid, hlast⟩ :=
    splitLast_spec path
  have hne := Text.ne_nil_of_ne_empty ha
  have hbne : before ≠ [] := by
    rw [hbefore]
    exact fun h => hne (List.append_eq_nil_iff.mp h).1
  obtain ⟨front, hfront⟩ := List.getLast?_eq_some_iff.mp (hlast hbne)
  have habs : isAbsolute path = isAbsolute (splitLast path).1 := by
    unfold isAbsolute
    rw [hpath, hbefore, List.append_assoc, List.append_assoc, List.head?_append]
    cases h : (splitLast path).1.toList with
    | nil => exact absurd h hne
    | cons c cs => rfl
  have habove : solidParts (splitLast path).1.toList = solidParts front := by
    rw [← solidParts_slashes hgap, ← hbefore, hfront, solidParts_slashes (by simp)]
  rw [steps_eq, steps_eq, habs, habove, hpath, solidParts_slashes hslashes, hfront,
    List.append_assoc, List.singleton_append, solidParts_slash,
    solidParts_name (Text.ne_nil_of_ne_empty hn) hsolid, String.ofList_toList, List.append_assoc]

/-- What stands above a last name, and the name. -/
theorem splitLast_append {above name : String} (ha : above.toList.getLast? ≠ some '/')
    (hne : above ≠ "") (hn : name ≠ "") (hs : '/' ∉ name.toList) :
    splitLast (above ++ "/" ++ name) = (above, name) := by
  have hrev : (above ++ "/" ++ name).toList.reverse =
      name.toList.reverse ++ '/' :: above.toList.reverse := by simp
  have hname : ∀ c ∈ name.toList.reverse, decide (c ≠ '/') = true := by
    intro c hc
    have hne' : c ≠ '/' := fun he => hs (he ▸ List.mem_reverse.mp hc)
    simpa using hne'
  have hfirst : (name.toList.reverse ++ '/' :: above.toList.reverse).dropWhile
      (fun c => decide (c = '/')) = name.toList.reverse ++ '/' :: above.toList.reverse := by
    cases hr : name.toList.reverse with
    | nil => exact absurd (List.reverse_eq_nil_iff.mp hr) (Text.ne_nil_of_ne_empty hn)
    | cons c cs =>
      have hc := hname c (by rw [hr]; exact List.mem_cons_self)
      exact List.dropWhile_cons_of_neg (by simpa using hc)
  have habove : above.toList.reverse.dropWhile (fun c => decide (c = '/')) =
      above.toList.reverse := by
    cases hr : above.toList.reverse with
    | nil => rfl
    | cons c cs =>
      rw [List.getLast?_eq_head?_reverse, hr, List.head?_cons] at ha
      exact List.dropWhile_cons_of_neg (by simpa using ha)
  unfold splitLast
  simp only [hrev, hfirst]
  rw [List.dropWhile_append_of_pos hname, List.takeWhile_append_of_pos hname,
    List.dropWhile_cons_of_neg (by simp), List.takeWhile_cons_of_neg (by simp),
    List.dropWhile_cons_of_pos (by simp), habove]
  simp [hne]

/-! ## Tidy paths -/

/-- The last name of a path is one of its parts. -/
theorem mem_solidParts_of_splitLast {path : String} (hn : (splitLast path).2 ≠ "") :
    (splitLast path).2 ∈ solidParts path.toList := by
  obtain ⟨before, -, slashes, hpath, -, -, hslashes, hsolid, hlast⟩ := splitLast_spec path
  have hname : solidParts (splitLast path).2.toList = [(splitLast path).2] := by
    rw [solidParts_name (Text.ne_nil_of_ne_empty hn) hsolid, String.ofList_toList]
  rw [hpath, solidParts_slashes hslashes]
  by_cases hb : before = []
  · rw [hb, List.nil_append, hname]
    exact List.mem_singleton_self _
  · obtain ⟨front, hfront⟩ := List.getLast?_eq_some_iff.mp (hlast hb)
    rw [hfront, List.append_assoc, List.singleton_append, solidParts_slash, hname]
    exact List.mem_append_right _ (List.mem_singleton_self _)

theorem solidParts_slashes_left {slashes : List Char} (h : ∀ c ∈ slashes, c = '/')
    (xs : List Char) : solidParts (slashes ++ xs) = solidParts xs := by
  induction slashes with
  | nil => rfl
  | cons c slashes ih =>
    obtain rfl : c = '/' := h c List.mem_cons_self
    have hs := solidParts_slash [] (slashes ++ xs)
    rw [List.nil_append, solidParts_nil, List.nil_append] at hs
    rw [List.cons_append, hs, ih fun c hc => h c (List.mem_cons_of_mem _ hc)]

theorem solidParts_intercalate {ns : List String} (h : ∀ n ∈ ns, n ≠ "" ∧ '/' ∉ n.toList) :
    solidParts (String.intercalate "/" ns).toList = ns := by
  induction ns with
  | nil => decide
  | cons n ns ih =>
    have hn := h n List.mem_cons_self
    have hname : solidParts n.toList = [n] := by
      rw [solidParts_name (Text.ne_nil_of_ne_empty hn.1) hn.2, String.ofList_toList]
    have ih' := ih fun x hx => h x (List.mem_cons_of_mem _ hx)
    cases ns with
    | nil => rw [String.intercalate_singleton, hname]
    | cons m ns =>
      have hlist : (String.intercalate "/" (n :: m :: ns)).toList =
          n.toList ++ '/' :: (String.intercalate "/" (m :: ns)).toList := by
        rw [String.intercalate_cons_cons]
        simp
      rw [hlist, solidParts_slash, hname, ih', List.singleton_append]

theorem eq_slash_of_mem_root {path : String} : ∀ c ∈ (root path).toList, c = '/' := by
  unfold root
  split <;> simp

/-- A tidy path has the names of the path, unless it is a dot. -/
theorem solidParts_tidy (path : String) :
    solidParts (tidy path).toList = names path ∨ tidy path = "." := by
  by_cases hs : root path ++ String.intercalate "/" (names path) = ""
  · right
    simp only [tidy, if_pos hs]
  · left
    have hnames : ∀ n ∈ names path, n ≠ "" ∧ '/' ∉ n.toList := by
      intro n hn
      obtain ⟨hp, hne⟩ := List.mem_filter.mp hn
      obtain ⟨part, hpart, rfl⟩ := List.mem_map.mp hp
      simp only [decide_eq_true_eq] at hne
      rw [String.toList_ofList]
      exact ⟨hne.1, Text.not_mem_of_mem_splitOn hpart⟩
    simp only [tidy, if_neg hs]
    rw [String.toList_append, solidParts_slashes_left eq_slash_of_mem_root,
      solidParts_intercalate hnames]

/-- The last name of a tidy path is no dot, unless the path is. -/
theorem splitLast_tidy (path : String) : (splitLast (tidy path)).2 ≠ "." ∨ tidy path = "." := by
  rcases solidParts_tidy path with h | h
  · left
    intro hd
    have hm := @mem_solidParts_of_splitLast (tidy path) (by rw [hd]; decide)
    rw [hd, h] at hm
    simpa using (List.mem_filter.mp hm).2
  · exact Or.inr h

theorem tidy_ne_empty (path : String) : tidy path ≠ "" := by
  unfold tidy
  simp only
  split
  · decide
  · assumption

end Path

end TapeMachine
