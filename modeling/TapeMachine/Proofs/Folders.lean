import Mathlib.Data.List.DropRight
import TapeMachine.Proofs.Paths

/-!
# Making directories and writing files

Making the directories of a path adds directories where nothing was, and nothing else. So whatever
could be followed before can be followed afterwards, and the path leads to a directory then, unless it
ends in a dot: that is not always looked at. A name under that directory has its own location, and writing
the file there changes that location only.

## Main statements

* `FileTree.locateFrom_append` — names are followed one after the other
* `FileTree.makeDirectories_grows` — making directories changes no file
* `FileTree.nodeAt?_of_makeDirectories` — when there is a directory at the path afterwards
* `FileTree.locateFrom_of_makeDirectories` — a tidy path that was made leads to a directory
* `FileTree.locate_join` — a name under a directory has its own location
* `FileTree.exists_above_of_locate_join` — what is found under a directory keeps its name
* `FileTree.modify_of_locate`, `FileTree.modify_eq_ok` — a file is changed where its path leads, and
  nowhere else
* `FileTree.fileOf?_of_locate` — what a file holds, whether it may be read or not
* `FileTree.readText_of_file`, `FileTree.readText_eq_ok` — a text that is read is that of a file
-/

namespace TapeMachine

/-- What to follow to get to the end of a path, without the dots at its end. -/
def Path.undotted (path : String) : List String := (steps path).rdropWhile fun name => name = "."

namespace FileTree

variable [Host] {t t' : FileTree}

/-! ## Following names -/

/-- Names are followed one after the other. -/
theorem locateFrom_append (t : FileTree) (l : Location) (xs ys : List String) :
    t.locateFrom l (xs ++ ys) =
      match t.locateFrom l xs with
      | .ok l' => t.locateFrom l' ys
      | .error e => .error e := by
  induction xs generalizing l with
  | nil => rfl
  | cons x xs ih =>
    rw [List.cons_append, locateFrom, locateFrom]
    cases t.node? l with
    | none => rfl
    | some n =>
      cases n with
      | file bytes => rfl
      | directory =>
        simp only
        split
        · exact ih _
        · split
          · exact ih _
          · split
            · exact ih _
            · split
              · rfl
              · exact ih _

/-- Every directory is still there. -/
def KeepsDirectories (t t' : FileTree) : Prop :=
  ∀ l, t.node? l = some .directory → t'.node? l = some .directory

/-- What could be followed can still be followed if every directory is still there. -/
theorem locateFrom_mono (h : KeepsDirectories t t') {l l' : Location} {names : List String}
    (hl : t.locateFrom l names = .ok l') : t'.locateFrom l names = .ok l' := by
  induction names generalizing l with
  | nil => exact hl
  | cons name rest ih =>
    rw [locateFrom] at hl ⊢
    cases hn : t.node? l with
    | none => simp [hn] at hl
    | some n =>
      cases n with
      | file bytes => simp [hn] at hl
      | directory =>
        rw [hn] at hl
        rw [h l hn]
        simp only at hl ⊢
        split at hl
        · next h1 => rw [if_pos h1]; exact ih hl
        · next h1 =>
          rw [if_neg h1]
          split at hl
          · next h2 => rw [if_pos h2]; exact ih hl
          · next h2 =>
            rw [if_neg h2]
            split at hl
            · next h3 => rw [if_pos h3]; exact ih hl
            · next h3 =>
              rw [if_neg h3]
              split at hl
              · cases hl
              · next h4 => rw [if_neg h4]; exact ih hl

theorem locate_mono (h : KeepsDirectories t t') {path : String} {l : Location}
    (hl : t.locate path = .ok l) : t'.locate path = .ok l := by
  unfold locate at hl ⊢
  cases hf : pathFault? path with
  | some e => simp [hf] at hl
  | none =>
    simp only [hf] at hl ⊢
    by_cases hp : path = ""
    · simp [hp] at hl
    · rw [if_neg hp] at hl ⊢
      exact locateFrom_mono h hl

/-! ## Dots at the end -/

/-- A dot asks for a directory and leads nowhere else. -/
theorem locateFrom_concat_dot {l l' : Location} {names : List String} :
    t.locateFrom l (names ++ ["."]) = .ok l' ↔
      t.locateFrom l names = .ok l' ∧ t.node? l' = some .directory := by
  rw [locateFrom_append]
  cases t.locateFrom l names with
  | error e => simp
  | ok l₁ =>
    simp only [locateFrom, Except.ok.injEq]
    constructor
    · intro h
      cases hn : t.node? l₁ with
      | none => simp [hn] at h
      | some n =>
        cases n with
        | file bytes => simp [hn] at h
        | directory =>
          have hl : l₁ = l' := by simpa [hn] using h
          exact ⟨hl, hl ▸ hn⟩
    · rintro ⟨rfl, hn⟩
      simp [hn]

/-- Names that can be followed can be followed without the dots at their end. -/
theorem locateFrom_rdropWhile {l l' : Location} {names : List String}
    (h : t.locateFrom l names = .ok l') :
    t.locateFrom l (names.rdropWhile fun name => name = ".") = .ok l' := by
  induction names using List.reverseRecOn with
  | nil => exact h
  | append_singleton names name ih =>
    by_cases hdot : name = "."
    · subst hdot
      rw [List.rdropWhile_concat_pos _ _ _ (by decide)]
      exact ih (locateFrom_concat_dot.mp h).1
    · rw [List.rdropWhile_concat_neg _ _ _ (by simpa using hdot)]
      exact h

/-- If they lead to a directory without the dots at their end, they do so with them. -/
theorem locateFrom_of_rdropWhile {l l' : Location} {names : List String}
    (h : t.locateFrom l (names.rdropWhile fun name => name = ".") = .ok l')
    (hd : t.node? l' = some .directory) : t.locateFrom l names = .ok l' := by
  induction names using List.reverseRecOn with
  | nil => exact h
  | append_singleton names name ih =>
    by_cases hdot : name = "."
    · subst hdot
      rw [List.rdropWhile_concat_pos _ _ _ (by decide)] at h
      exact locateFrom_concat_dot.mpr ⟨ih h, hd⟩
    · rw [List.rdropWhile_concat_neg _ _ _ (by simpa using hdot)] at h
      exact h

/-! ## Trees that grow -/

/-- Nothing but directories was added, where nothing was. -/
def Grows (t t' : FileTree) : Prop :=
  ∀ l, t'.node? l = t.node? l ∨ t.node? l = none ∧ t'.node? l = some .directory

theorem Grows.refl (t : FileTree) : Grows t t := fun _ => Or.inl rfl

theorem Grows.trans {t'' : FileTree} (h : Grows t t') (h' : Grows t' t'') : Grows t t'' := by
  intro l
  rcases h l with hl | ⟨hn, hd⟩
  · rcases h' l with hl' | ⟨hn', hd'⟩
    · exact Or.inl (hl'.trans hl)
    · exact Or.inr ⟨hl ▸ hn', hd'⟩
  · rcases h' l with hl' | ⟨hn', -⟩
    · exact Or.inr ⟨hn, hl'.trans hd⟩
    · rw [hd] at hn'
      cases hn'

theorem Grows.keepsDirectories (h : Grows t t') : KeepsDirectories t t' := by
  intro l hl
  rcases h l with he | ⟨hn, -⟩
  · rw [he, hl]
  · rw [hl] at hn
    cases hn

theorem isAbove_eq_false_of_node? {l : Location} {n : Option Node} (h : t.node? l = n)
    (hn : n ≠ some .directory) : l.isAbove = false := by
  cases ha : l.isAbove with
  | false => rfl
  | true => exact absurd (by rw [← h, node?, if_pos ha]) hn

theorem grows_put {l : Location} (h : t.node? l = none) : Grows t (t.put l .directory) := by
  intro l'
  rw [node?_put (isAbove_eq_false_of_node? h nofun)]
  by_cases hl : l = l'
  · subst hl
    exact Or.inr ⟨h, if_pos rfl⟩
  · exact Or.inl (if_neg hl)

/-! ## Making directories -/

/-- What is there after a directory was made at the end of names. -/
theorem makeAt_eq_ok {path : String} {l l' : Location} {names : List String}
    (h : t.makeAt path l names = (.ok l', t')) :
    pathFault? path = none ∧ t.locateFrom l names = .ok l' ∧
      t' = if (t.node? l').isSome then t else t.put l' .directory := by
  unfold makeAt at h
  cases hf : pathFault? path with
  | some e => simp [hf] at h
  | none =>
    cases hl : t.locateFrom l names with
    | error e => simp [hf, hl] at h
    | ok l₁ =>
      simp only [hf, hl] at h
      split at h
      · next hsome =>
        cases h
        exact ⟨rfl, rfl, (if_pos hsome).symm⟩
      · next hnone =>
        split at h
        · cases h
          exact ⟨rfl, rfl, (if_neg hnone).symm⟩
        · cases h

theorem makeAt_grows (t : FileTree) (path : String) (l : Location) (names : List String) :
    Grows t (t.makeAt path l names).2 := by
  unfold makeAt
  split
  · exact .refl t
  · split
    · exact .refl t
    · split
      · exact .refl t
      · next hnone =>
        split
        · exact grows_put (Option.not_isSome_iff_eq_none.mp hnone)
        · exact .refl t

theorem makeWithin_grows (most : Nat) (t : FileTree) (path : String) :
    Grows t (makeWithin most t path).2 := by
  induction most generalizing t path with
  | zero => exact .refl t
  | succ most ih =>
    rw [makeWithin]
    simp only
    split
    · exact makeAt_grows t path Host.home _
    · have hg := ih t (Path.splitLast path).1
      split
      · next l t₁ hm =>
        rw [hm] at hg
        split
        · exact hg
        · exact hg.trans (makeAt_grows t₁ path l _)
      · exact hg

/-- Making directories adds directories where nothing was, and changes no file. -/
theorem makeDirectories_grows (t : FileTree) (path : String) :
    Grows t (t.makeDirectories path).2 := by
  unfold makeDirectories
  split
  · exact .refl t
  · have hg := makeWithin_grows Host.mostMade t path
    split
    · next e t₁ hm =>
      rw [hm] at hg
      exact hg
    · next l t₁ hm =>
      rw [hm] at hg
      split
      · exact hg
      · exact hg

/-- Names that were followed from a directory start at a directory. -/
theorem node?_of_locateFrom {l l' : Location} {name : String} {rest : List String}
    (h : t.locateFrom l (name :: rest) = .ok l') : t.node? l = some .directory := by
  rw [locateFrom] at h
  cases hn : t.node? l with
  | none => simp [hn] at h
  | some n =>
    cases n with
    | file bytes => simp [hn] at h
    | directory => rfl

/-- If what stands above is there, only the last directory is made. -/
theorem makeDirectories_of_pathExists {path : String} (hne : path ≠ "")
    (h : (Path.splitLast path).1 = "" ∨ t.pathExists (Path.splitLast path).1 = true)
    {l : Location} (hm : t.makeAt path Host.home (Path.steps path) = (.ok l, t'))
    (hd : t'.node? l = some .directory) : t.makeDirectories path = (.ok (), t') := by
  have hw : makeWithin Host.mostMade t path = t.makeAt path Host.home (Path.steps path) := by
    obtain ⟨most, hmost⟩ := Nat.exists_eq_succ_of_ne_zero (Nat.ne_of_gt Host.mostMade_pos)
    rw [hmost, makeWithin]
    simp only
    refine if_pos ?_
    rcases h with h | h <;> simp [h]
  unfold makeDirectories
  rw [if_neg hne, hw, hm]
  simp [hd]

/-- Names lead to what was made at their end, and there is something there. -/
theorem locateFrom_of_makeAt {path : String} {l l' : Location} {names : List String}
    (h : t.makeAt path l names = (.ok l', t')) :
    t'.locateFrom l names = .ok l' ∧ (t'.node? l').isSome = true := by
  have hg := makeAt_grows t path l names
  rw [h] at hg
  obtain ⟨-, hl, ht⟩ := makeAt_eq_ok h
  refine ⟨locateFrom_mono hg.keepsDirectories hl, ?_⟩
  cases hn : t.node? l' with
  | some n =>
    rw [ht, hn]
    exact congrArg Option.isSome hn
  | none =>
    rw [hn] at ht
    have hput : t' = t.put l' .directory := ht
    rw [hput, node?_put (isAbove_eq_false_of_node? hn nofun), if_pos rfl]
    rfl

/-- The path leads to what is there after its directories were made, but for the dots at its end: they
are not followed. -/
theorem locateFrom_undotted_of_makeWithin {most : Nat} {path : String} {l : Location}
    (h : makeWithin most t path = (.ok l, t')) :
    t'.locateFrom Host.home (Path.undotted path) = .ok l ∧ (t'.node? l).isSome = true := by
  induction most generalizing t t' path l with
  | zero => simp [makeWithin] at h
  | succ most ih =>
    rw [makeWithin] at h
    simp only at h
    split at h
    · obtain ⟨hl, hsome⟩ := locateFrom_of_makeAt h
      exact ⟨locateFrom_rdropWhile hl, hsome⟩
    · next hc =>
      simp only [Bool.or_eq_true, decide_eq_true_eq, not_or] at hc
      obtain ⟨⟨habove, hname⟩, -⟩ := hc
      rw [Path.undotted, Path.steps_splitLast habove hname]
      cases hm : makeWithin most t (Path.splitLast path).1 with
      | mk r t₁ =>
        rw [hm] at h
        cases r with
        | error e => simp at h
        | ok l₁ =>
          simp only at h
          split at h
          · next hdot =>
            cases h
            rw [List.rdropWhile_concat_pos _ _ _ (by simpa using hdot)]
            exact ih hm
          · next hdot =>
            obtain ⟨hl, hsome⟩ := locateFrom_of_makeAt h
            have hg := makeAt_grows t₁ path l₁ [(Path.splitLast path).2]
            rw [h] at hg
            have hd₁ : t₁.node? l₁ = some .directory := node?_of_locateFrom (makeAt_eq_ok h).2.1
            have habove₁ := locateFrom_of_rdropWhile (ih hm).1 hd₁
            rw [List.rdropWhile_concat_neg _ _ _ (by simpa using hdot), locateFrom_append,
              locateFrom_mono hg.keepsDirectories habove₁]
            exact ⟨hl, hsome⟩

/-- Where directories were made for a path and there is one now, the path leads there. -/
theorem locateFrom_of_makeWithin {most : Nat} {path : String} {l : Location}
    (h : makeWithin most t path = (.ok l, t')) (hd : t'.node? l = some .directory) :
    t'.locateFrom Host.home (Path.steps path) = .ok l :=
  locateFrom_of_rdropWhile (locateFrom_undotted_of_makeWithin h).1 hd

theorem pathFault?_of_makeWithin {most : Nat} {path : String} {l : Location}
    (hp : (Path.splitLast path).2 ≠ ".") (h : makeWithin most t path = (.ok l, t')) :
    pathFault? path = none := by
  cases most with
  | zero => simp [makeWithin] at h
  | succ most =>
    rw [makeWithin] at h
    simp only at h
    split at h
    · exact (makeAt_eq_ok h).1
    · split at h
      · exact (makeAt_eq_ok h).1
      · next hm =>
        rw [h] at hm
        exact absurd rfl (hm l t')

/-- A path with a NUL character is refused, even in front of a dot. -/
theorem nul_not_mem_of_makeWithin {most : Nat} {path : String} {l : Location}
    (h : makeWithin most t path = (.ok l, t')) : '\x00' ∉ path.toList := by
  have hasked : ∀ {path : String}, pathFault? path = none → '\x00' ∉ path.toList := by
    intro path hf hm
    simp [pathFault?, hm] at hf
  induction most generalizing t t' path l with
  | zero => simp [makeWithin] at h
  | succ most ih =>
    rw [makeWithin] at h
    simp only at h
    split at h
    · exact hasked (makeAt_eq_ok h).1
    · cases hm : makeWithin most t (Path.splitLast path).1 with
      | mk r t₁ =>
        rw [hm] at h
        cases r with
        | error e => simp at h
        | ok l₁ =>
          simp only at h
          split at h
          · next hdot =>
            obtain ⟨before, gap, slashes, hpath, hbefore, hgap, hslashes, -⟩ := Path.splitLast_spec path
            rw [hpath, hbefore, hdot]
            simp only [List.mem_append, not_or]
            exact ⟨⟨⟨ih hm, fun hn => absurd (hgap _ hn) (by decide)⟩, by decide⟩,
              fun hn => absurd (hslashes _ hn) (by decide)⟩
          · exact hasked (makeAt_eq_ok h).1

/-- A path that ends in a dot and is not looked up as a whole once what is above the dot was made: it is
too long for that, or without the dots at its end it leads to a file. -/
def Overlooked (t : FileTree) (path : String) : Prop :=
  (Path.splitLast path).2 = "." ∧
    (longestPath < path.utf8ByteSize ∨
      ∃ l bytes, t.locateFrom Host.home (Path.undotted path) = .ok l ∧ t.node? l = some (.file bytes))

/-- Where a path leads if something is found there. -/
theorem locateFrom_of_nodeAt? {path : String} {n : Node} (h : t.nodeAt? path = some n) :
    pathFault? path = none ∧ ∃ l, t.locateFrom Host.home (Path.steps path) = .ok l ∧ t.node? l = some n := by
  unfold nodeAt? locate at h
  cases hf : pathFault? path with
  | some e => simp [hf] at h
  | none =>
    refine ⟨rfl, ?_⟩
    simp only [hf] at h
    split at h
    · next l hl =>
      refine ⟨l, ?_, h⟩
      split at hl
      · cases hl
      · split at hl
        · exact (locateFrom_concat_dot.mp hl).1
        · rw [List.append_nil] at hl
          exact hl
    · cases h

/-- A path that leads to a directory does so with a slash at its end, too. -/
theorem nodeAt?_of_locateFrom {path : String} {l : Location} (hne : path ≠ "")
    (hf : pathFault? path = none) (hl : t.locateFrom Host.home (Path.steps path) = .ok l)
    (hd : t.node? l = some .directory) : t.nodeAt? path = some .directory := by
  have hlocate : t.locate path = .ok l := by
    unfold locate
    simp only [hf, if_neg hne]
    split
    · exact locateFrom_concat_dot.mpr ⟨hl, hd⟩
    · rw [List.append_nil]
      exact hl
  rw [nodeAt?_of_locate hlocate, hd]

/-- Where directories were made for a path there is a directory, unless the path is overlooked. -/
theorem nodeAt?_of_makeDirectories {path : String} (h : t.makeDirectories path = (.ok (), t')) :
    t'.nodeAt? path = some .directory ↔ ¬Overlooked t' path := by
  unfold makeDirectories at h
  split at h
  · cases h
  next hne =>
  split at h
  · cases h
  next l t₁ hm =>
  split at h
  · cases h
  next hc =>
  cases h
  obtain ⟨hl, hsome⟩ := locateFrom_undotted_of_makeWithin hm
  constructor
  · rintro hnode ⟨-, hlong | ⟨l₁, bytes, hl₁, hfile⟩⟩
    · have hshort := (locateFrom_of_nodeAt? hnode).1
      simp [pathFault?, nul_not_mem_of_makeWithin hm, hlong] at hshort
    · obtain ⟨-, l₂, hl₂, hd⟩ := locateFrom_of_nodeAt? hnode
      have hsame : l₁ = l₂ := Except.ok.inj (hl₁.symm.trans (locateFrom_rdropWhile hl₂))
      rw [hsame, hd] at hfile
      cases hfile
  · intro hnot
    have hd : t'.node? l = some .directory := by
      by_contra hd
      have hdot : (Path.splitLast path).2 = "." := by
        by_contra hdot
        exact hc ⟨hd, hdot⟩
      obtain ⟨n, hn⟩ := Option.isSome_iff_exists.mp hsome
      cases n with
      | directory => exact hd hn
      | file bytes => exact hnot ⟨hdot, Or.inr ⟨l, bytes, hl, hn⟩⟩
    have hf : pathFault? path = none := by
      by_cases hname : (Path.splitLast path).2 = "."
      · have hshort : ¬longestPath < path.utf8ByteSize := fun hlong => hnot ⟨hname, Or.inl hlong⟩
        simp [pathFault?, nul_not_mem_of_makeWithin hm, hshort]
      · exact pathFault?_of_makeWithin hname hm
    exact nodeAt?_of_locateFrom hne hf (locateFrom_of_makeWithin hm hd) hd

/-- A tidy path has no dot at its end, unless it is one, and that leads to the working directory. -/
theorem not_overlooked_tidy (t : FileTree) (path : String) : ¬Overlooked t (Path.tidy path) := by
  rintro ⟨hdot, hwrong⟩
  have htidy := (Path.splitLast_tidy path).resolve_left (not_not_intro hdot)
  rw [htidy] at hwrong
  rcases hwrong with hlong | ⟨l, bytes, hl, hfile⟩
  · exact absurd hlong (by decide)
  · have hnames : Path.undotted "." = [] := by decide
    rw [hnames] at hl
    cases hl
    rw [node?_home] at hfile
    cases hfile

/-- A tidy path whose directories were made leads to a directory. -/
theorem locateFrom_of_makeDirectories {path : String}
    (h : t.makeDirectories (Path.tidy path) = (.ok (), t')) :
    pathFault? (Path.tidy path) = none ∧
      ∃ l, t'.locateFrom Host.home (Path.steps (Path.tidy path)) = .ok l ∧
        t'.node? l = some .directory :=
  locateFrom_of_nodeAt? ((nodeAt?_of_makeDirectories h).mpr (not_overlooked_tidy t' path))

/-! ## A name under a directory -/

/-- A name that stands for itself wherever it is followed. -/
structure PlainName (name : String) : Prop where
  ne : name ≠ ""
  no_slash : '/' ∉ name.toList
  no_nul : '\x00' ∉ name.toList
  not_dot : name ≠ "."
  not_dots : name ≠ ".."
  short : name.utf8ByteSize ≤ longestName

instance (name : String) : Decidable (PlainName name) :=
  decidable_of_iff (name ≠ "" ∧ '/' ∉ name.toList ∧ '\x00' ∉ name.toList ∧ name ≠ "." ∧
      name ≠ ".." ∧ name.utf8ByteSize ≤ longestName)
    ⟨fun ⟨h1, h2, h3, h4, h5, h6⟩ => ⟨h1, h2, h3, h4, h5, h6⟩,
      fun h => ⟨h.ne, h.no_slash, h.no_nul, h.not_dot, h.not_dots, h.short⟩⟩

theorem locateFrom_plain {name : String} {l : Location} (hn : PlainName name)
    (hl : t.node? l = some .directory) : t.locateFrom l [name] = .ok (l ++ [name]) := by
  have hslash : name ≠ "/" := by
    rintro rfl
    exact hn.no_slash (by decide)
  have hshort : ¬ longestName < name.utf8ByteSize := Nat.not_lt.mpr hn.short
  simp [locateFrom, hl, hslash, hn.not_dot, hn.not_dots, hshort]

/-- A name under a directory is a location of its own. -/
theorem locate_join {dir name : String} {l : Location} (hn : PlainName name) (hd : dir ≠ "")
    (hf : pathFault? (Path.join dir name) = none)
    (hl : t.locateFrom Host.home (Path.steps dir) = .ok l) (hnode : t.node? l = some .directory) :
    t.locate (Path.join dir name) = .ok (l ++ [name]) := by
  have hsteps := Path.steps_join hd hn.ne hn.no_slash
  have hne : Path.join dir name ≠ "" := by
    intro he
    rw [he] at hsteps
    have hs : Path.steps "" = [] := by decide
    rw [hs] at hsteps
    simp at hsteps
  simp only [locate, hf, if_neg hne, if_neg (Path.getLast?_join hn.ne hn.no_slash), List.append_nil]
  rw [hsteps, locateFrom_append, hl]
  exact locateFrom_plain hn hnode

/-- Where a name under a directory is found, the name comes last. -/
theorem exists_above_of_locate_join {dir name : String} {l : Location} (hd : dir ≠ "")
    (hne : name ≠ "") (hs : '/' ∉ name.toList) (hdot : name ≠ ".") (hdots : name ≠ "..")
    (h : t.locate (Path.join dir name) = .ok l) : ∃ above, l = above ++ [name] := by
  have hslash : name ≠ "/" := by
    rintro rfl
    exact hs (by decide)
  unfold locate at h
  split at h
  · cases h
  · split at h
    · cases h
    · rw [if_neg (Path.getLast?_join hne hs), List.append_nil, Path.steps_join hd hne hs, locateFrom_append] at h
      split at h
      · next above habove =>
        rw [locateFrom] at h
        split at h
        · cases h
        · cases h
        · rw [if_neg hslash, if_neg hdot, if_neg hdots] at h
          split at h
          · cases h
          · cases h
            exact ⟨above, rfl⟩
      · cases h

omit [Host] in
theorem nul_not_mem_join {dir name : String} (hn : PlainName name) (hf : pathFault? dir = none) :
    '\x00' ∉ (Path.join dir name).toList := by
  have hnul : '\x00' ∉ dir.toList := by
    intro hm
    simp [pathFault?, hm] at hf
  obtain ⟨gap, hj, hgap⟩ := @Path.toList_join dir name hn.no_slash
  rw [hj, List.mem_append, List.mem_append]
  rintro ((hm | hm) | hm)
  · exact hnul hm
  · exact absurd (hgap _ hm) (by decide)
  · exact hn.no_nul hm

omit [Host] in
/-- A name under a path can be asked for if the path can and both together are short enough. -/
theorem pathFault?_join {dir name : String} (hn : PlainName name)
    (hf : pathFault? dir = none) (hlen : (Path.join dir name).utf8ByteSize ≤ longestPath) :
    pathFault? (Path.join dir name) = none := by
  have hnul := nul_not_mem_join hn hf
  simp [pathFault?, hnul, hlen]

omit [Host] in
/-- If both together are too long, that is what is wrong. -/
theorem pathFault?_join_of_lt {dir name : String} (hn : PlainName name)
    (hf : pathFault? dir = none) (hlen : longestPath < (Path.join dir name).utf8ByteSize) :
    pathFault? (Path.join dir name) = some .nameTooLong := by
  have hnul := nul_not_mem_join hn hf
  simp [pathFault?, hnul, hlen]

/-! ## Writing files -/

/-- The bytes of the file at a location; none if there is no file. -/
def bytesAt (t : FileTree) (l : Location) : ByteArray :=
  match t.node? l with
  | some (.file bytes) => bytes
  | _ => ByteArray.empty

/-- A file is changed where its path leads, if it may be written. -/
theorem modify_of_free {path : String} {l : Location} (hl : t.locate path = .ok l)
    (hn : t.node? l ≠ some .directory) (f : ByteArray → ByteArray) :
    t.modify path f =
      if Host.mayWrite l then .ok (t.put l (.file (f (t.bytesAt l)))) else .error .denied := by
  unfold modify bytesAt
  simp only [hl]
  cases h : t.node? l with
  | none => rfl
  | some n =>
    cases n with
    | directory => exact absurd h hn
    | file bytes => rfl

theorem modify_of_locate {path : String} {l : Location} (hl : t.locate path = .ok l)
    (hn : t.node? l ≠ some .directory) (hw : Host.mayWrite l = true) (f : ByteArray → ByteArray) :
    t.modify path f = .ok (t.put l (.file (f (t.bytesAt l)))) := by
  rw [modify_of_free hl hn, if_pos hw]

/-- If a file was changed, its path leads where it stands, and it may be written. -/
theorem modify_eq_ok {path : String} {f : ByteArray → ByteArray} (h : t.modify path f = .ok t') :
    ∃ l, t.locate path = .ok l ∧ t.node? l ≠ some .directory ∧ Host.mayWrite l = true ∧
      t' = t.put l (.file (f (t.bytesAt l))) := by
  cases hl : t.locate path with
  | error e => simp [modify, hl] at h
  | ok l =>
    have hfree : t.node? l ≠ some .directory := by
      intro hd
      simp [modify, hl, hd] at h
    rw [modify_of_free hl hfree] at h
    split at h
    · next hw => exact ⟨l, rfl, hfree, hw, (Except.ok.inj h).symm⟩
    · cases h

/-- Where a file was changed there is no directory, and it may be written. -/
theorem free_of_modify {path : String} {l : Location} {f : ByteArray → ByteArray}
    (h : t.modify path f = .ok t') (hl : t.locate path = .ok l) :
    t.node? l ≠ some .directory ∧ Host.mayWrite l = true := by
  obtain ⟨l', hl', hfree, hw, -⟩ := modify_eq_ok h
  cases hl.symm.trans hl'
  exact ⟨hfree, hw⟩

/-- A file in the place of what is no directory takes no directory away. -/
theorem keepsDirectories_put {l : Location} (hn : t.node? l ≠ some .directory)
    (bytes : ByteArray) : KeepsDirectories t (t.put l (.file bytes)) := by
  intro l' hl'
  rw [node?_put (isAbove_eq_false_of_node? rfl hn)]
  by_cases h : l = l'
  · subst h
    exact absurd hl' hn
  · rw [if_neg h, hl']

/-- A file in the place of what is no directory changes nothing about where paths lead. -/
theorem locate_put_file {l : Location} (hn : t.node? l ≠ some .directory) (bytes : ByteArray)
    {path : String} {l' : Location} :
    (t.put l (.file bytes)).locate path = .ok l' ↔ t.locate path = .ok l' := by
  have hback : KeepsDirectories (t.put l (.file bytes)) t := by
    intro l₁ h₁
    rw [node?_put (isAbove_eq_false_of_node? rfl hn)] at h₁
    split at h₁
    · cases h₁
    · exact h₁
  exact ⟨locate_mono hback, locate_mono (keepsDirectories_put hn bytes)⟩

/-! ## Files at locations -/

/-- The bytes of the file at a location, if there is one. -/
def fileAt? (t : FileTree) (l : Location) : Option ByteArray :=
  match t.node? l with
  | some (.file bytes) => some bytes
  | _ => none

theorem bytesAt_eq_fileAt? (t : FileTree) (l : Location) :
    t.bytesAt l = (t.fileAt? l).getD ByteArray.empty := by
  unfold bytesAt fileAt?
  cases t.node? l with
  | none => rfl
  | some n => cases n <;> rfl

/-- The bytes of the file at the end of a path, if there is one. It need not be one that may be read. -/
def fileOf? (t : FileTree) (path : String) : Option ByteArray :=
  match t.nodeAt? path with
  | some (.file bytes) => some bytes
  | _ => none

theorem fileOf?_of_locate {path : String} {l : Location} (h : t.locate path = .ok l) :
    t.fileOf? path = t.fileAt? l := by
  rw [fileOf?, nodeAt?_of_locate h]
  rfl

theorem fileOf?_of_nodeAt?_eq_none {path : String} (h : t.nodeAt? path = none) :
    t.fileOf? path = none := by
  rw [fileOf?, h]

/-- Whether the place where a path leads may be read. -/
def readable (t : FileTree) (path : String) : Bool :=
  match t.locate path with
  | .ok l => Host.mayRead l
  | .error _ => false

theorem readable_of_locate {path : String} {l : Location} (h : t.locate path = .ok l) :
    t.readable path = Host.mayRead l := by
  simp only [readable, h]

/-- The text of a file is what its bytes stand for, if it may be read. -/
theorem readText_of_file {path : String} {bytes : ByteArray}
    (h : t.nodeAt? path = some (.file bytes)) :
    t.readText path = if t.readable path then decode bytes else .error .denied := by
  cases hl : t.locate path with
  | error e => simp [nodeAt?, hl] at h
  | ok l =>
    rw [nodeAt?_of_locate hl] at h
    unfold readText FileTree.read readable
    simp only [hl, h]
    cases Host.mayRead l <;> rfl

/-- A text that was read is that of the file where the path leads, and that may be read. -/
theorem readText_eq_ok {path text : String} (h : t.readText path = .ok text) :
    ∃ l bytes, t.locate path = .ok l ∧ t.node? l = some (.file bytes) ∧ Host.mayRead l = true ∧
      decode bytes = .ok text := by
  unfold readText FileTree.read at h
  cases hl : t.locate path with
  | error e => simp [hl] at h
  | ok l =>
    cases hn : t.node? l with
    | none => simp [hl, hn] at h
    | some n =>
      cases n with
      | directory => simp [hl, hn] at h
      | file bytes =>
        simp only [hl, hn] at h
        split at h
        · cases h
        · next hb =>
          split at hb
          · next hr =>
            cases hb
            exact ⟨l, bytes, rfl, hn, hr, h⟩
          · cases hb

theorem Grows.fileAt? (h : Grows t t') (l : Location) : t'.fileAt? l = t.fileAt? l := by
  unfold FileTree.fileAt?
  rcases h l with he | ⟨hn, hd⟩
  · rw [he]
  · rw [hn, hd]

theorem fileAt?_put {l : Location} (h : l.isAbove = false) (bytes : ByteArray) (l' : Location) :
    (t.put l (.file bytes)).fileAt? l' = if l = l' then some bytes else t.fileAt? l' := by
  unfold fileAt?
  rw [node?_put h]
  by_cases hl : l = l'
  · rw [if_pos hl, if_pos hl]
  · rw [if_neg hl, if_neg hl]

end FileTree

end TapeMachine
