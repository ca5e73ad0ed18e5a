import TapeMachine.Proofs.Culprits
import TapeMachine.Proofs.Folders
import TapeMachine.Settings.Load

/-!
# Settings are the defaults with a file laid over them

The fields of a file are given to the table of defaults one by one. As a JSON reader gives no name twice,
what results can be said at once: the defaults in their order, each with the file's value if there is one,
and the file's other fields behind them. Only if that table is one of settings are they used and is the
directory for logs made. Otherwise the first fault is reported, and no file or directory is touched.

## Main statements

* `Table.entries_foldl_set` — the entries after values are given one by one
* `Json.readToken_apart`, `Json.apart_of_read` — no two fields of an object that was read have one name
* `Settings.fault?_eq_none_iff`, `Settings.firstFault_of_fault?` — which tables have no fault, and which
  fault is first
* `Settings.find?_ofOverlay` — the settings of a table that fits are its values
* `Settings.load_overlays` — what is loaded from a file with an object
* `Settings.directory_missing` — a directory for logs that is not made
-/

namespace TapeMachine

/-! ## Values given one by one -/

namespace Table

variable {κ ν : Type} [DecidableEq κ]

/-- The pairs of a table, each with the value that a list gives its key if there is one, and behind them
those of the list that have other keys. -/
def laidOver (t : Table κ ν) (given : List (κ × ν)) : List (κ × ν) :=
  t.entries.map (fun e => (e.1, (given.lookup e.1).getD e.2)) ++ given.filter fun e => e.1 ∉ t.keys

/-- It does not matter whether a value is given first or with the others. -/
theorem laidOver_set {t : Table κ ν} {k : κ} {v : ν} {given : List (κ × ν)}
    (hk : k ∉ given.map Prod.fst) : laidOver (t.set k v) given = laidOver t ((k, v) :: given) := by
  have hothers : ∀ {entries : List (κ × ν)}, k ∉ entries.map Prod.fst →
      entries.map (fun e => (e.1, (((k, v) :: given).lookup e.1).getD e.2)) =
        entries.map fun e => (e.1, (given.lookup e.1).getD e.2) := by
    intro entries hnot
    refine List.map_congr_left fun e he => ?_
    have hne : e.1 ≠ k := fun h => hnot (h ▸ List.mem_map_of_mem he)
    rw [List.lookup_cons, beq_false_of_ne hne]
  have hlast : given.lookup k = none :=
    List.lookup_eq_none_iff.mpr fun e he => bne_iff_ne.mpr fun h => hk (h ▸ List.mem_map_of_mem he)
  unfold laidOver
  rw [keys_set]
  cases hf : t.find? k with
  | none =>
    have hnew : k ∉ t.keys := find?_eq_none.mp hf
    have hfilter : given.filter (fun e => e.1 ∉ t.keys ++ [k]) = given.filter fun e => e.1 ∉ t.keys := by
      refine List.filter_congr fun e he => ?_
      have hne : e.1 ≠ k := fun h => hk (h ▸ List.mem_map_of_mem he)
      simp [hne]
    rw [if_neg hnew, entries_set_of_new v hf, List.map_append, List.map_singleton, hlast, hfilter,
      hothers hnew, List.filter_cons_of_pos (by simpa using hnew), List.append_assoc]
    rfl
  | some v₀ =>
    have hknown : k ∈ t.keys := List.mem_map_of_mem (find?_eq_some.mp hf)
    obtain ⟨before, after, he, hset⟩ := entries_set_of_known v hf
    have hn := t.nodup
    rw [he, List.map_append, List.map_cons, List.nodup_append, List.nodup_cons] at hn
    have hbefore : k ∉ before.map Prod.fst := fun h => hn.2.2 k h k List.mem_cons_self rfl
    rw [if_pos hknown, hset, he, List.map_append, List.map_append, List.map_cons, List.map_cons,
      hothers hbefore, hothers hn.2.1.1, hlast, List.lookup_cons_self,
      List.filter_cons_of_neg (by simpa using hknown)]
    rfl

/-- The entries after the values of a list are given one by one. -/
theorem entries_foldl_set {given : List (κ × ν)} (h : (given.map Prod.fst).Nodup) (t : Table κ ν) :
    (given.foldl (fun t e => t.set e.1 e.2) t).entries = laidOver t given := by
  induction given generalizing t with
  | nil => simp [laidOver]
  | cons e given ih =>
    rw [List.map_cons, List.nodup_cons] at h
    rw [List.foldl_cons, ih h.2, laidOver_set h.1]

end Table

/-! ## Names of fields -/

namespace Json

/-- The fields of an object. -/
def fields? : Json → Option (List (String × Json))
  | .object fields => some fields
  | _ => none

theorem fields?_eq_some {j : Json} {fields : List (String × Json)} :
    fields? j = some fields ↔ j = .object fields := by
  cases j <;> simp [fields?]

/-- No two fields of a value have one name. -/
def Apart : Json → Prop
  | .object fields => (fields.map Prod.fst).Nodup
  | _ => True

def Frame.Apart : Frame → Prop
  | .array _ => True
  | .object fields _ => (fields.map Prod.fst).Nodup

def Want.Apart : Want → Prop
  | .name fields => (fields.map Prod.fst).Nodup
  | .nothing j => j.Apart
  | _ => True

theorem apart_of_number? {negative : Bool} {cs : List Char} {j : Json} (h : number? negative cs = .ok j) :
    j.Apart := by
  unfold number? at h
  repeat' split at h
  all_goals cases h
  all_goals exact trivial

theorem apart_of_literal? {cs : List Char} {j : Json} (h : literal? cs = .ok j) : j.Apart := by
  unfold literal? at h
  repeat' split at h
  case h_1 => exact apart_of_number? h
  case h_2 => exact apart_of_number? h
  all_goals
    cases h
    exact trivial

/-- A value in a token is no object. -/
theorem apart_of_mem_tokens {standIn : Option Char} {cs : List Char} {j : Json}
    (h : Token.scalar j ∈ tokens standIn cs) : j.Apart := by
  fun_induction tokens standIn cs with
  | case1 => cases h
  | case2 c rest _ ih => exact ih h
  | case9 | case10 | case12 | case14 =>
    cases h with
    | tail _ h => cases h
  | case11 c rest _ _ _ _ _ _ _ _ body rest' _ _ s _ ih =>
    cases h with
    | head => exact trivial
    | tail _ h => exact ih h
  | case13 c rest =>
    cases h with
    | head => exact apart_of_literal? ‹_›
    | tail _ h =>
      rename_i ih
      exact ih h
  | _ =>
    rename_i ih
    cases h with
    | tail _ h => exact ih h

theorem place_apart {j : Json} {stack : List Frame} (hj : j.Apart) (h : ∀ f ∈ stack, f.Apart) :
    (place j stack).1.Apart ∧ ∀ f ∈ (place j stack).2, f.Apart := by
  cases stack with
  | nil => exact ⟨hj, nofun⟩
  | cons f rest =>
    have hf := h f List.mem_cons_self
    have hrest : ∀ f ∈ rest, f.Apart := fun f hf => h f (List.mem_cons_of_mem _ hf)
    cases f with
    | array items => exact ⟨trivial, List.forall_mem_cons.mpr ⟨trivial, hrest⟩⟩
    | object fields name =>
      -- a name that was given before keeps its place
      have hput : ((Table.put name j fields).map Prod.fst).Nodup := (Table.set ⟨fields, hf⟩ name j).nodup
      exact ⟨trivial, List.forall_mem_cons.mpr ⟨hput, hrest⟩⟩

/-- A token keeps names apart. -/
theorem readToken_apart [Host] {s s' : Want × List Frame} {t : Token} (h : readToken s t = .ok s')
    (ht : ∀ j, t = .scalar j → j.Apart) (hs : s.1.Apart ∧ ∀ f ∈ s.2, f.Apart) :
    s'.1.Apart ∧ ∀ f ∈ s'.2, f.Apart := by
  obtain ⟨want, stack⟩ := s
  obtain ⟨hw, hstack⟩ := hs
  have hopened : ∀ {opened : Want × List Frame}, openWithin stack opened = .ok s' → opened = s' := by
    intro opened ho
    unfold openWithin at ho
    split at ho
    · cases ho
    · exact Except.ok.inj ho
  unfold readToken at h
  dsimp only at h hw hstack
  split at h
  case h_1 | h_2 =>
    cases h
    exact place_apart (ht _ rfl) hstack
  case h_3 | h_4 =>
    cases hopened h
    exact ⟨trivial, List.forall_mem_cons.mpr ⟨trivial, hstack⟩⟩
  case h_5 | h_6 =>
    cases hopened h
    exact ⟨trivial, hstack⟩
  case h_9 | h_10 =>
    cases h
    exact place_apart trivial (List.forall_mem_cons.mp hstack).2
  case h_11 =>
    cases h
    exact place_apart (List.forall_mem_cons.mp hstack).1 (List.forall_mem_cons.mp hstack).2
  case h_12 | h_19 =>
    cases h
    exact ⟨trivial, hstack⟩
  case h_13 =>
    cases h
    exact List.forall_mem_cons.mp hstack
  case h_14 =>
    cases h
    exact place_apart List.nodup_nil hstack
  case h_17 =>
    cases h
    exact ⟨trivial, List.forall_mem_cons.mpr ⟨List.nodup_nil, hstack⟩⟩
  case h_18 =>
    cases h
    exact ⟨trivial, List.forall_mem_cons.mpr ⟨hw, hstack⟩⟩
  case h_7 | h_8 | h_15 | h_16 | h_20 => cases h

theorem foldlM_readToken_apart [Host] {ts : List Token} {s s' : Want × List Frame}
    (h : ts.foldlM readToken s = .ok s') (ht : ∀ j, Token.scalar j ∈ ts → j.Apart)
    (hs : s.1.Apart ∧ ∀ f ∈ s.2, f.Apart) : s'.1.Apart ∧ ∀ f ∈ s'.2, f.Apart := by
  induction ts generalizing s with
  | nil =>
    cases h
    exact hs
  | cons t ts ih =>
    rw [List.foldlM_cons] at h
    cases hr : readToken s t with
    | error e =>
      rw [hr] at h
      cases h
    | ok s₁ =>
      rw [hr] at h
      refine ih h (fun j hj => ht j (List.mem_cons_of_mem _ hj)) (readToken_apart hr ?_ hs)
      rintro j rfl
      exact ht j List.mem_cons_self

/-- No two fields of an object that was read have one name. -/
theorem apart_of_read [Host] {s : String} {j : Json} (h : read s = .ok j) : j.Apart := by
  unfold read ofTokens? at h
  split at h
  · next value stack hrun =>
    cases h
    exact (foldlM_readToken_apart hrun (fun _ => apart_of_mem_tokens) ⟨trivial, nofun⟩).1
  · cases h
  · cases h

end Json

namespace Settings

/-! ## Tables of settings -/

/-- The values of a kind. A truth value is no integer. -/
def Kind.Holds : Kind → Json → Prop
  | .integer, j => ∃ n, j = .int n
  | .boolean, j => ∃ b, j = .bool b
  | .text, j => ∃ s, j = .string s

theorem Kind.accepts_iff {kind : Kind} {j : Json} : kind.accepts j = true ↔ kind.Holds j := by
  cases kind <;> cases j <;> simp [accepts, Holds]

/-- Whether a setting is there and has its kind. -/
def HasKind (o : Overlay) (e : String × Kind) : Prop := ∃ j, o.find? (.name e.1) = some j ∧ e.2.Holds j

def IsPositive (o : Overlay) (key : String) : Prop := ∃ n, o.find? (.name key) = some (.int n) ∧ 0 < n

/-- A table of settings: each is there and has its kind, and sizes and counts are positive. -/
structure Fits (o : Overlay) : Prop where
  kinds : ∀ e ∈ schema, HasKind o e
  signs : ∀ key ∈ positive, IsPositive o key

/-- What is to be said of a table: the first setting of another kind, or, if there is none, the first that
should be positive and is not. -/
inductive FirstFault (o : Overlay) : Fault → Prop
  | kind {key : String} {kind : Kind} {j : Json}
      (first : FirstIn schema (fun e => ¬HasKind o e) (key, kind))
      (found : o.find? (.name key) = some j) : FirstFault o (.wrongKind key kind j)
  | sign {key : String} {n : Int} (kinds : ∀ e ∈ schema, HasKind o e)
      (first : FirstIn positive (fun key => ¬IsPositive o key) key)
      (found : o.find? (.name key) = some (.int n)) : FirstFault o (.notPositive key n)

section

variable {o : Overlay}

theorem kindFault_eq_none {e : String × Kind} : kindFault o e = none ↔ HasKind o e := by
  unfold kindFault HasKind
  cases hf : o.find? (.name e.1) with
  | none => simp [hf]
  | some j => simp [hf, ← Kind.accepts_iff]

theorem exists_int (h : ∀ e ∈ schema, HasKind o e) {key : String} (hk : key ∈ positive) :
    ∃ n, o.find? (.name key) = some (.int n) := by
  have hinteger : ∀ key ∈ positive, (key, Kind.integer) ∈ schema := by decide
  obtain ⟨j, hf, n, rfl⟩ := h _ (hinteger key hk)
  exact ⟨n, hf⟩

theorem signFault_eq_none (h : ∀ e ∈ schema, HasKind o e) {key : String} (hk : key ∈ positive) :
    signFault o key = none ↔ IsPositive o key := by
  obtain ⟨n, hf⟩ := exists_int h hk
  simp [signFault, IsPositive, hf]

theorem fault?_eq_none_iff : fault? o = none ↔ Fits o := by
  have hkinds : schema.findSome? (kindFault o) = none ↔ ∀ e ∈ schema, HasKind o e := by
    rw [List.findSome?_eq_none_iff]
    exact forall₂_congr fun e _ => kindFault_eq_none
  have hsigns : (∀ e ∈ schema, HasKind o e) →
      (positive.findSome? (signFault o) = none ↔ ∀ key ∈ positive, IsPositive o key) := by
    intro h
    rw [List.findSome?_eq_none_iff]
    exact forall₂_congr fun key hk => signFault_eq_none h hk
  rw [fault?, Option.or_eq_none_iff, hkinds]
  constructor
  · rintro ⟨hk, hs⟩
    exact ⟨hk, (hsigns hk).mp hs⟩
  · rintro ⟨hk, hs⟩
    exact ⟨hk, (hsigns hk).mpr hs⟩

/-- In a table with all settings, the fault that is reported is the first. -/
theorem firstFault_of_fault? (hall : ∀ e ∈ schema, o.find? (.name e.1) ≠ none) {f : Fault}
    (h : fault? o = some f) : FirstFault o f := by
  rw [fault?, Option.or_eq_some_iff] at h
  rcases h with h | ⟨hnone, h⟩
  · obtain ⟨⟨key, kind⟩, hfirst, hf⟩ := findSome?_eq_some_iff_firstIn.mp h
    obtain ⟨j, hj⟩ := Option.ne_none_iff_exists'.mp (hall _ hfirst.mem)
    have hwrong : f = .wrongKind key kind j := by
      simp only [kindFault, hj] at hf
      split at hf
      · cases hf
      · exact (Option.some.inj hf).symm
    rw [hwrong]
    exact .kind ((FirstIn.congr fun e _ => not_congr kindFault_eq_none).mp hfirst) hj
  · have hkinds : ∀ e ∈ schema, HasKind o e :=
      fun e he => kindFault_eq_none.mp (List.findSome?_eq_none_iff.mp hnone e he)
    obtain ⟨key, hfirst, hf⟩ := findSome?_eq_some_iff_firstIn.mp h
    obtain ⟨n, hn⟩ := exists_int hkinds hfirst.mem
    have hsign : f = .notPositive key n := by
      simp only [signFault, hn] at hf
      split at hf
      · exact (Option.some.inj hf).symm
      · cases hf
    rw [hsign]
    exact .sign hkinds ((FirstIn.congr fun e he => not_congr (signFault_eq_none hkinds he)).mp hfirst) hn

/-- The settings of a table that fits are its values, no default in place of any. -/
theorem find?_ofOverlay (h : Fits o) : ∀ e ∈ schema,
    (ofOverlay o).toOverlay.find? (.name e.1) = o.find? (.name e.1) := by
  obtain ⟨_, hsize, size, rfl⟩ := h.kinds ("tape_size", .integer) (by decide)
  obtain ⟨_, hsteps, steps, rfl⟩ := h.kinds ("max_steps", .integer) (by decide)
  obtain ⟨_, hverbose, verbose, rfl⟩ := h.kinds ("verbose", .boolean) (by decide)
  obtain ⟨_, hlog, log, rfl⟩ := h.kinds ("log_results", .boolean) (by decide)
  obtain ⟨_, hbatch, batch, rfl⟩ := h.kinds ("batch_size", .integer) (by decide)
  obtain ⟨_, hdirectory, directory, rfl⟩ := h.kinds ("output_directory", .text) (by decide)
  obtain ⟨_, hprefix, logPrefix, rfl⟩ := h.kinds ("log_file_prefix", .text) (by decide)
  have hs : ofOverlay o = ⟨size, steps, verbose, log, batch, directory, logPrefix⟩ := by
    simp only [ofOverlay, hsize, hsteps, hverbose, hlog, hbatch, hdirectory, hprefix]
  rw [hs]
  simp only [schema, List.forall_mem_cons]
  exact ⟨hsize.symm, hsteps.symm, hverbose.symm, hlog.symm, hbatch.symm, hdirectory.symm, hprefix.symm, by simp⟩

end

/-! ## Files with an object -/

/-- The fields of an object, as they are given to the table of defaults. -/
def named (fields : List (String × Json)) : List (Key × Json) := fields.map fun f => (.name f.1, f.2)

theorem entries_overlay {fields : List (String × Json)} (h : (fields.map Prod.fst).Nodup) (o : Overlay) :
    (overlay o (named fields)).entries = o.laidOver (named fields) := by
  have hkept : overlay o (named fields) = (named fields).foldl (fun o f => o.set f.1 f.2) o := by
    unfold overlay named
    rw [List.foldl_map, List.foldl_map]
    exact congrArg (fun step => fields.foldl step o) (funext₂ fun o f => by rw [keptName_name])
  have hnodup : ((named fields).map Prod.fst).Nodup := by
    have hmap : (named fields).map Prod.fst = (fields.map Prod.fst).map Key.name := by
      rw [named, List.map_map, List.map_map]
      rfl
    rw [hmap]
    exact h.map fun _ _ => Key.name.inj
  rw [hkept, Table.entries_foldl_set hnodup]

/-- No file takes a setting away. -/
theorem find?_overlay_ne_none {fields : List (String × Json)} (h : (fields.map Prod.fst).Nodup) :
    ∀ e ∈ schema, (overlay defaults (named fields)).find? (.name e.1) ≠ none := by
  intro e he
  have hdefault : ∀ e ∈ schema, Key.name e.1 ∈ defaults.keys := by decide
  have hkey : Key.name e.1 ∈ (overlay defaults (named fields)).keys := by
    rw [Table.keys, entries_overlay h, Table.laidOver, List.map_append, List.map_map]
    exact List.mem_append_left _ (hdefault e he)
  exact fun hn => Table.find?_eq_none.mp hn hkey

section

variable [Host] {t : FileTree} {path text : String} {fields : List (String × Json)}

theorem readOverlay_of_read (hfile : t.readText path = .ok text)
    (hread : Json.read text = .ok (.object fields)) :
    readOverlay t path = .ok (overlay defaults (named fields)) := by
  have hexists : t.pathExists path = true := FileTree.isSome_nodeAt?_of_readText hfile
  simp only [readOverlay, hexists, hfile, hread, fieldsOf_object]
  rfl

/-- A table that does not fit is refused, and nothing is made. -/
theorem load_of_fault {o : Overlay} {f : Fault} (ho : readOverlay t path = .ok o) (hf : fault? o = some f) :
    load t path = (.error (.invalid f), t) := by
  simp [load, ho, check, hf]

/-- A table that fits is loaded if the directory for logs can be made. -/
theorem load_eq_ok_iff {o : Overlay} {r : Overlay × Settings} {t' : FileTree}
    (ho : readOverlay t path = .ok o) : load t path = (.ok r, t') ↔
      Fits o ∧ r = (o, ofOverlay o) ∧ t.makeDirectories (ofOverlay o).outputDirectory = (.ok (), t') := by
  cases hf : fault? o with
  | some f =>
    have hnot : ¬Fits o := fun h => by simp [fault?_eq_none_iff.mpr h] at hf
    simp [load_of_fault ho hf, hnot]
  | none =>
    have hfits := fault?_eq_none_iff.mp hf
    cases hm : t.makeDirectories (ofOverlay o).outputDirectory with
    | mk made t₁ =>
      cases made with
      | error e => simp [load, ho, check, hf, hm]
      | ok _ => simp [load, ho, check, hf, hm, hfits, eq_comm]

omit [Host] in
theorem outputDirectory_eq_iff {o : Overlay} {dir : String} (h : Fits o) :
    (ofOverlay o).outputDirectory = dir ↔ o.find? (.name "output_directory") = some (.string dir) := by
  have hfield : some (.string (ofOverlay o).outputDirectory) = o.find? (.name "output_directory") :=
    find?_ofOverlay h ("output_directory", .text) (by decide)
  rw [← hfield, Option.some_inj, Json.string.injEq]

/-- What a file with an object gives is the table of the defaults with its fields laid over them. The file
is loaded exactly if that table fits and the directory for logs can be made, and then the directory is
there, unless its path ends in a dot and is overlooked. Of a table that does not fit the first fault is
reported, and the tree stays as it was. -/
theorem load_overlays (hfile : t.readText path = .ok text) (hread : Json.read text = .ok (.object fields)) :
    ∃ o : Overlay, o.entries = defaults.laidOver (named fields) ∧
      (∀ r t', load t path = (.ok r, t') ↔ Fits o ∧ r = (o, ofOverlay o) ∧
        ∃ dir, o.find? (.name "output_directory") = some (.string dir) ∧
          t.makeDirectories dir = (.ok (), t')) ∧
      (∀ r t' dir, load t path = (.ok r, t') → o.find? (.name "output_directory") = some (.string dir) →
        (t'.nodeAt? dir = some .directory ↔ ¬t'.Overlooked dir)) ∧
      (¬Fits o → ∃ f, load t path = (.error (.invalid f), t) ∧ FirstFault o f) := by
  have hnodup : (fields.map Prod.fst).Nodup := Json.apart_of_read hread
  have ho := readOverlay_of_read hfile hread
  refine ⟨overlay defaults (named fields), entries_overlay hnodup defaults, fun r t' => ?_,
    fun r t' dir hload hdir => ?_, fun hnot => ?_⟩
  · rw [load_eq_ok_iff ho]
    constructor
    · rintro ⟨hfits, hr, hmade⟩
      exact ⟨hfits, hr, _, (outputDirectory_eq_iff hfits).mp rfl, hmade⟩
    · rintro ⟨hfits, hr, dir, hdir, hmade⟩
      rw [← (outputDirectory_eq_iff hfits).mpr hdir] at hmade
      exact ⟨hfits, hr, hmade⟩
  · obtain ⟨hfits, -, hmade⟩ := (load_eq_ok_iff ho).mp hload
    rw [(outputDirectory_eq_iff hfits).mpr hdir] at hmade
    exact FileTree.nodeAt?_of_makeDirectories hmade
  · obtain ⟨f, hf⟩ := Option.ne_none_iff_exists'.mp fun hnone => hnot (fault?_eq_none_iff.mp hnone)
    exact ⟨f, load_of_fault ho hf, firstFault_of_fault? (find?_overlay_ne_none hnodup) hf⟩

end

section

attribute [local instance] Host.usual

/-- An object that a text writes, with what can be found out about the table it gives by trying. -/
theorem exists_object_with {text : String} {test : Overlay → Bool}
    (h : (((Json.read text).toOption.bind Json.fields?).any fun fields =>
      (fault? (overlay defaults (named fields))).isNone && test (overlay defaults (named fields))) = true) :
    ∃ fields, Json.read text = .ok (.object fields) ∧ Fits (overlay defaults (named fields)) ∧
      test (overlay defaults (named fields)) = true := by
  obtain ⟨fields, hfields, htest⟩ := (Option.any_eq_true _ _).mp h
  obtain ⟨j, hj, hobject⟩ := Option.bind_eq_some_iff.mp hfields
  rw [Bool.and_eq_true, Option.isNone_iff_eq_none] at htest
  refine ⟨fields, ?_, fault?_eq_none_iff.mp htest.1, htest.2⟩
  rw [← Json.fields?_eq_some.mp hobject]
  cases hr : Json.read text with
  | error e => simp [hr, Except.toOption] at hj
  | ok j' =>
    rw [hr] at hj
    rw [Option.some.inj hj]

/-- A file with one setting and a field that is none. -/
theorem load_overlays_sized :
    let text := "\x7b\"tape_size\": 64, \"colour\": \"red\"\x7d"
    let t := FileTree.empty.install defaultPath text.toUTF8
    t.readText defaultPath = .ok text ∧ ∃ fields, Json.read text = .ok (.object fields) ∧
      ∃ o t', load t defaultPath = (.ok (o, { default with tapeSize := 64 }), t') ∧
        o.keys = defaults.keys ++ [.name "colour"] ∧ t'.nodeAt? "logs/" = some .directory := by
  intro text t
  have hfile : t.readText defaultPath = .ok text :=
    (FileTree.readText_of_file rfl).trans <| (if_pos rfl).trans (FileTree.decode_toUTF8 (by decide))
  obtain ⟨fields, hread, hfits, htest⟩ := @exists_object_with text (fun o =>
    ofOverlay o = { default with tapeSize := 64 } ∧ o.keys = defaults.keys ++ [.name "colour"])
    (by decide +kernel)
  rw [decide_eq_true_iff] at htest
  obtain ⟨o, hentries, hload, hmade, -⟩ := load_overlays hfile hread
  have ho : o = overlay defaults (named fields) :=
    Table.ext_entries (hentries.trans (entries_overlay (Json.apart_of_read hread) defaults).symm)
  rw [← ho] at hfits htest
  have hdir : o.find? (.name "output_directory") = some (.string "logs/") :=
    (outputDirectory_eq_iff hfits).mp (congrArg outputDirectory htest.1)
  have hput : t.makeDirectories "logs/" = (.ok (), t.put ["logs"] .directory) := rfl
  have hok := (hload (o, ofOverlay o) _).mpr ⟨hfits, rfl, "logs/", hdir, hput⟩
  refine ⟨hfile, fields, hread, o, _, htest.1 ▸ hok, htest.2, (hmade _ _ _ hok hdir).mpr ?_⟩
  rintro ⟨hdot, -⟩
  exact absurd hdot (by decide)

/-- A file stands in the way of the directory for logs. As the path ends in a dot, and a directory on it was
not there, the file is not noticed, and there is no directory afterwards. -/
theorem directory_missing :
    let text := "\x7b\"output_directory\": \"x/../f/.\"\x7d"
    let t := (FileTree.empty.install "f" ByteArray.empty).install defaultPath text.toUTF8
    t.readText defaultPath = .ok text ∧ ∃ fields, Json.read text = .ok (.object fields) ∧
      ∃ r t', load t defaultPath = (.ok r, t') ∧ r.2.outputDirectory = "x/../f/." ∧
        t'.nodeAt? "x/../f/." = none := by
  intro text t
  have hfile : t.readText defaultPath = .ok text :=
    (FileTree.readText_of_file rfl).trans <| (if_pos rfl).trans (FileTree.decode_toUTF8 (by decide))
  obtain ⟨fields, hread, hfits, htest⟩ := @exists_object_with text
    (fun o => (ofOverlay o).outputDirectory = "x/../f/.") (by decide +kernel)
  rw [decide_eq_true_iff] at htest
  have hput : t.makeDirectories "x/../f/." = (.ok (), t.put ["x"] .directory) := rfl
  have hok := (load_eq_ok_iff (readOverlay_of_read hfile hread)).mpr ⟨hfits, rfl, htest.symm ▸ hput⟩
  exact ⟨hfile, fields, hread, _, _, hok, htest, rfl⟩

end

end Settings

end TapeMachine
