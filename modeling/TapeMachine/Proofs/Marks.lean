import TapeMachine.CommandLine
import TapeMachine.Proofs.Dispatch
import TapeMachine.Proofs.Lines

/-!
# Nothing is shown that the console refuses

Where a text of the user is shown among marks, it is found out first whether the console takes it. All
else is shown without asking: lines in which brackets are text, and lines of the program's own in which
there is nothing but numbers. So whatever the program is asked to do, and however that ends, it has
shown only what the console takes. A campaign is never stopped by what it shows.

## Main statements

* `Audible.bind` — tasks one after the other that show only what the console takes
* `Campaign.Draft.audible_simulate` — campaigns are such tasks
* `Session.audible_dispatch`, `Session.audible_runLines` — and so are lines and scripts of the shell
* `CommandLine.audible_campaign`, `CommandLine.audible_inspect`, `CommandLine.audible_script` — the
  commands of the program
-/

namespace TapeMachine

/-! ## Texts without marks -/

namespace Marks

theorem unmarked_of_not_mem {text : String} (h : '[' ∉ text.toList) : unmarked text = true := by
  have hnone := afterBrackets_append_of_not_mem h []
  rw [List.append_nil] at hnone
  rw [unmarked, hnone]
  rfl

/-- Texts without a bracket one after the other have none. -/
theorem not_mem_append {a b : String} (ha : '[' ∉ a.toList) (hb : '[' ∉ b.toList) :
    '[' ∉ (a ++ b).toList := by
  rw [String.toList_append, List.mem_append, not_or]
  exact ⟨ha, hb⟩

end Marks

theorem AllNumeric.not_mem {cs : List Char} (h : AllNumeric cs) : '[' ∉ cs :=
  fun hc => absurd (h _ hc) (by decide)

/-- Commas are all that is put between digits. -/
theorem Text.of_mem_groupReversed {digits : List Char} {c : Char} (h : c ∈ groupReversed digits) :
    c = ',' ∨ c ∈ digits := by
  fun_induction groupReversed digits with
  | case1 a b d e rest ih =>
    simp only [List.mem_cons] at h ih ⊢
    rcases h with h | h | h | h | h
    · exact Or.inr (Or.inl h)
    · exact Or.inr (Or.inr (Or.inl h))
    · exact Or.inr (Or.inr (Or.inr (Or.inl h)))
    · exact Or.inl h
    · exact (ih h).imp_right fun h => Or.inr (Or.inr (Or.inr h))
  | case2 few => exact Or.inr h

theorem Text.not_mem_groupDigits {digits : List Char} (h : '[' ∉ digits) :
    '[' ∉ groupDigits digits := by
  intro hc
  rcases of_mem_groupReversed (List.mem_reverse.mp hc) with hc | hc
  · exact absurd hc (by decide)
  · exact h (List.mem_reverse.mp hc)

theorem Text.not_mem_grouped (n : Int) : '[' ∉ (grouped n).toList := by
  have hdigits : '[' ∉ (String.ofList (groupDigits (Nat.repr n.natAbs).toList)).toList := by
    rw [String.toList_ofList]
    exact not_mem_groupDigits fun hc => absurd (isDigit_of_mem_natRepr hc) (by decide)
  unfold grouped
  simp only
  split
  · exact Marks.not_mem_append (by decide) hdigits
  · exact hdigits

namespace Checkpoint

theorem not_mem_groupedFraction (x : Binary64) : '[' ∉ (groupedFraction x).toList := by
  have htext : '[' ∉ x.text.toList := x.numeric_text.not_mem
  -- the digits after the sign, grouped up to the point
  have hshown : ∀ sign digits : List Char, '[' ∉ sign → '[' ∉ digits → '[' ∉ (String.ofList (sign ++
      Text.groupDigits (digits.takeWhile Char.isDigit) ++ digits.dropWhile Char.isDigit)).toList := by
    intro sign digits hsign hdigits
    rw [String.toList_ofList, List.mem_append, List.mem_append, not_or, not_or]
    exact ⟨⟨hsign, Text.not_mem_groupDigits fun hc => hdigits ((List.takeWhile_sublist _).subset hc)⟩,
      fun hc => hdigits ((List.dropWhile_sublist _).subset hc)⟩
  unfold groupedFraction
  simp only
  split
  · next rest hx =>
    have hrest : '[' ∉ rest := fun hc => htext (hx ▸ List.mem_cons_of_mem _ hc)
    split
    · exact hshown ['-'] rest (by decide) hrest
    · exact htext
  · split
    · exact hshown [] _ (by decide) htext
    · exact htext

/-- What is left is announced without a bracket. -/
theorem not_mem_pending? {total : Nat} {progress : Progress} {text : String}
    (h : pending? total progress = some text) : '[' ∉ text.toList := by
  unfold pending? at h
  cases progress with
  | count n =>
    simp only at h
    split at h
    · cases h
    · cases h
      exact Text.not_mem_grouped _
  | fraction x =>
    simp only at h
    cases h
    split
    · decide
    · exact not_mem_groupedFraction _

end Checkpoint

/-! ## Tasks that show only what is taken -/

/-- What has been shown is what had been shown before, and then only what the console takes. -/
def ShownOnly [Host] (before after : Array Event) : Prop :=
  ∃ said : List Event, after = before ++ said.toArray ∧ ∀ e ∈ said, Host.takes e = true

section

variable [Host] {a b c : Array Event}

theorem ShownOnly.refl (a : Array Event) : ShownOnly a a := ⟨[], by simp, nofun⟩

theorem ShownOnly.trans (h : ShownOnly a b) (h' : ShownOnly b c) : ShownOnly a c := by
  obtain ⟨said, rfl, htaken⟩ := h
  obtain ⟨said', rfl, htaken'⟩ := h'
  exact ⟨said ++ said', by simp [Array.append_assoc], List.forall_mem_append.mpr ⟨htaken, htaken'⟩⟩

theorem shownOnly_push {e : Event} (h : Host.takes e = true) (a : Array Event) :
    ShownOnly a (a.push e) := ⟨[e], by simp, by simpa using h⟩

end

/-- However it ends, the task shows only what the console takes. -/
def Audible [Host] {σ ε α : Type} (console : σ → Array Event) (task : ExceptT ε (StateM σ) α) : Prop :=
  ∀ s, ShownOnly (console s) (console (task s).2)

namespace Audible

section

variable [Host] {σ ε α β : Type} {console : σ → Array Event} {task : ExceptT ε (StateM σ) α}

/-- What leaves the console as it is. -/
theorem of_silent (h : ∀ s, console (task s).2 = console s) : Audible console task := by
  intro s
  rw [h]
  exact .refl _

theorem pure (a : α) : Audible console (Pure.pure a : ExceptT ε (StateM σ) α) :=
  of_silent fun _ => rfl

theorem throw (e : ε) : Audible console (MonadExcept.throw e : ExceptT ε (StateM σ) α) :=
  of_silent fun _ => rfl

/-- Each task may rely on what the one before it ended with. -/
theorem bind_of {next : α → ExceptT ε (StateM σ) β} (h : Audible console task)
    (hnext : ∀ a s s', task s = (.ok a, s') → Audible console (next a)) :
    Audible console (task >>= next) :=
  fun s => Task.leads_bind (R := fun s s' => ShownOnly (console s) (console s')) ShownOnly.trans (h s)
    fun a s' hs => hnext a s s' hs s'

theorem bind {next : α → ExceptT ε (StateM σ) β} (h : Audible console task)
    (hnext : ∀ a, Audible console (next a)) : Audible console (task >>= next) :=
  h.bind_of fun a _ _ _ => hnext a

theorem forM {γ : Type} {items : List γ} {each : γ → ExceptT ε (StateM σ) PUnit}
    (h : ∀ x ∈ items, Audible console (each x)) : Audible console (items.forM each) := by
  induction items with
  | nil => exact pure _
  | cons x rest ih =>
    rw [List.forall_mem_cons] at h
    exact h.1.bind fun _ => ih h.2

end

section

variable [Host] {ε ε' α : Type}

theorem tree : Audible Desk.console (Task.tree : Task ε FileTree) := of_silent fun _ => rfl

theorem ofExcept (x : Except ε α) : Audible Desk.console (Task.ofExcept x) := of_silent fun _ => rfl

theorem onTree (f : FileTree → Except ε α × FileTree) : Audible Desk.console (Task.onTree f) :=
  of_silent fun _ => rfl

theorem edit (f : FileTree → Except ε FileTree) : Audible Desk.console (Task.edit f) := by
  refine of_silent fun d => ?_
  unfold Task.edit
  split <;> rfl

theorem say {e : Event} (h : Host.takes e = true) :
    Audible Desk.console (Task.say e : Task ε Unit) := fun d => shownOnly_push h d.console

theorem mapFailure {task : Task ε α} (h : Audible Desk.console task) (f : ε → ε') :
    Audible Desk.console (task.mapFailure f) := h

end

end Audible

/-! ## Campaigns -/

namespace Campaign

variable [Host] {job : Job} {m : Machine}

theorem takes_announcement (job : Job) (b : Batch) : Host.takes (announcement job b) = true := by
  refine Host.takes_line_of_unmarked (Marks.unmarked_of_not_mem ?_)
  exact Marks.not_mem_append (Marks.not_mem_append (Marks.not_mem_append (Marks.not_mem_append
    (by decide) (numeric_intRepr _).not_mem) (by decide)) (Text.not_mem_grouped _)) (by decide)

theorem takes_of_warning? {r : Evaluation} {e : Event} (h : warning? r = some e) :
    Host.takes e = true := by
  unfold warning? at h
  split at h
  · cases h
    exact Host.takes_of_markup (Event.markup_styled _ _)
  · cases h

theorem takes_of_overview {inputs : List String} {progress : Checkpoint.Progress} {e : Event}
    (h : overview inputs progress = .ok e) : Host.takes e = true := by
  unfold overview at h
  split at h
  · cases h
  · next hpending =>
    cases h
    refine Host.takes_line_of_unmarked (Marks.unmarked_of_not_mem ?_)
    exact Marks.not_mem_append (Marks.not_mem_append (Marks.not_mem_append (Marks.not_mem_append
      (by decide) (Text.not_mem_grouped _)) (by decide)) (Checkpoint.not_mem_pending? hpending))
      (by decide)

theorem takes_success : Host.takes success = true :=
  Session.takes_own "green" "[SUCCESS] All inputs simulated. Results saved."
    (by decide) (by decide) (by decide)

theorem audible_perform {a : Action} (h : ∀ e, a = .say e → Host.takes e = true) :
    Audible Desk.console (perform job a) := by
  unfold perform
  cases a with
  | say e => exact .say (h e rfl)
  | record text => exact .edit _
  | checkpoint n => exact .edit _

/-- What is said in the work on a batch is taken. -/
theorem takes_of_mem_actions {b : Batch} {e : Event} (h : .say e ∈ actions m job b) :
    Host.takes e = true := by
  unfold actions at h
  simp only [List.mem_append, List.mem_cons, List.mem_map, List.mem_filterMap, Action.say.injEq,
    reduceCtorEq, List.not_mem_nil, or_false] at h
  rcases h with rfl | ⟨e', ⟨r, -, hr⟩, rfl⟩
  · exact takes_announcement job b
  · exact takes_of_warning? hr

theorem audible_workOff {work : List Action} (h : ∀ e, .say e ∈ work → Host.takes e = true) :
    Audible Desk.console (workOff job work) :=
  .forM fun _ ha => audible_perform fun e he => h e (he ▸ ha)

theorem audible_workOff_actions (b : Batch) :
    Audible Desk.console (workOff job (actions m job b)) :=
  audible_workOff fun _ => takes_of_mem_actions

theorem audible_workOff_plan (inputs : List String) (completed : Int) :
    Audible Desk.console (workOff job (plan m job inputs completed)) := by
  refine audible_workOff fun e he => ?_
  obtain ⟨b, -, he⟩ := List.mem_flatMap.mp he
  exact takes_of_mem_actions he

theorem audible_loadMachine (job : Job) : Audible Desk.console (loadMachine job) :=
  Audible.tree.bind fun _ => (Audible.ofExcept _).bind fun _ => .ofExcept _

theorem audible_openJournal (job : Job) (now : Moment) :
    Audible Desk.console (openJournal job now) := (Audible.onTree _).mapFailure _

theorem audible_loadInputs (job : Job) : Audible Desk.console (loadInputs job) :=
  Audible.tree.bind fun _ => (Audible.ofExcept _).bind fun _ => .pure _

theorem audible_loadProgress (job : Job) : Audible Desk.console (loadProgress job) := by
  refine Audible.tree.bind fun tree => (Audible.ofExcept _).bind fun found => ?_
  cases found with
  | false => exact .pure _
  | true =>
    exact (Audible.ofExcept _).bind fun _ => (Audible.ofExcept _).bind fun _ => .ofExcept _

theorem audible_simulate (job : Job) (now : Moment) :
    Audible Desk.console (Campaign.simulate job now) := by
  unfold Campaign.simulate
  refine (audible_loadMachine _).bind fun m => ?_
  refine (audible_openJournal _ _).bind fun journal => ?_
  refine (audible_loadInputs _).bind fun inputs => ?_
  refine (audible_loadProgress _).bind fun progress => ?_
  refine (Audible.ofExcept _).bind_of fun e s s' he => ?_
  refine (Audible.say (takes_of_overview (Prod.mk.inj he).1)).bind fun _ => ?_
  refine (Audible.ofExcept _).bind fun completed => ?_
  refine ((audible_workOff_plan _ _).mapFailure _).bind fun _ => ?_
  exact (Audible.say takes_success).bind fun _ => .pure _

namespace Draft

theorem audible_need {α : Type} (part : Except Failure α) : Audible Desk.console (need part) :=
  .ofExcept _

theorem audible_workOn (d : Draft) (batches : List Batch) :
    Audible Desk.console (d.workOn m batches) := by
  induction batches with
  | nil => exact .pure _
  | cons b rest ih =>
    unfold workOn
    split
    · exact (Audible.say (takes_announcement _ _)).bind fun _ => .throw _
    · exact ((audible_workOff_actions b).mapFailure _).bind fun _ => ih

/-- A campaign shows only what the console takes, whatever is in its files. -/
theorem audible_simulate (d : Draft) (now : Moment) : Audible Desk.console (d.simulate now) := by
  unfold simulate
  split
  · exact Campaign.audible_simulate _ _
  · unfold attempt
    refine (audible_need _).bind fun _ => (audible_loadMachine _).bind fun m => ?_
    refine (audible_need _).bind fun _ => (audible_openJournal _ _).bind fun journal => ?_
    refine (audible_need _).bind fun _ => (audible_loadInputs _).bind fun inputs => ?_
    refine (audible_loadProgress _).bind fun progress => ?_
    refine (Audible.ofExcept _).bind_of fun e s s' he => ?_
    refine (Audible.say (takes_of_overview (Prod.mk.inj he).1)).bind fun _ => ?_
    refine (audible_need _).bind fun _ => (Audible.ofExcept _).bind fun completed => ?_
    refine (audible_workOn _ _).bind fun _ => ?_
    exact (Audible.say takes_success).bind fun _ => .pure _

end Draft

end Campaign

/-! ## Sessions -/

namespace Session

variable [Host]

/-- What has been shown in a world. -/
def World.shown (w : World) : Array Event := w.desk.console

theorem audible_current : Audible World.shown current := .of_silent fun _ => rfl

theorem audible_change (f : Session → Session) : Audible World.shown (change f) :=
  .of_silent fun _ => rfl

theorem audible_atDesk {α : Type} {task : Task FileFault α} (h : Audible Desk.console task) :
    Audible World.shown (atDesk task) := fun w => h w.desk

theorem audible_say (e : Event) : Audible World.shown (say e) := by
  unfold say
  split
  · next h => exact audible_atDesk (.say h)
  · exact .throw _

theorem audible_sayLines {es : List Event} (h : ∀ e ∈ es, e.markup = false) :
    Audible World.shown (sayLines es) :=
  fun _ => ⟨es, rfl, fun e he => Host.takes_of_markup (h e he)⟩

omit [Host] in
/-- What is shown of steps are plain lines. -/
theorem markup_of_mem_traceEvents {m : Machine} {start final : Configuration} {e : Event}
    (h : e ∈ traceEvents m start final) : e.markup = false := by
  unfold traceEvents traceBetween at h
  rw [trace_eq_map, List.mem_flatten] at h
  obtain ⟨es, hes, he⟩ := h
  obtain ⟨x, -, rfl⟩ := List.mem_map.mp hes
  simp only [stepEvents, List.mem_cons, List.not_mem_nil, or_false] at he
  rcases he with rfl | rfl <;> rfl

theorem audible_load (file alphabet : String) : Audible World.shown (load file alphabet) := by
  refine (audible_atDesk .tree).bind fun tree => (audible_atDesk (.ofExcept _)).bind fun there => ?_
  split
  · exact audible_say _
  · refine (audible_atDesk (.ofExcept _)).bind fun source => ?_
    cases Machine.compile source (Alphabet.itemsOf alphabet) with
    | error e => exact audible_say _
    | ok m => exact (audible_change _).bind fun _ => audible_say _

theorem audible_logResult (input : String) (r : Result) (now : Moment) :
    Audible World.shown (logResult input r now) := by
  refine audible_current.bind fun s => ?_
  cases s.journal with
  | none => exact .pure ()
  | some j => exact (audible_atDesk (.onTree _)).bind fun _ => .pure ()

theorem audible_runMachine (m : Machine) (input : String) (size : Int) (now : Moment) :
    Audible World.shown (runMachine m input size now) := by
  unfold runMachine
  by_cases hsize : (Host.mostCells : Int) < size
  · rw [if_pos hsize]
    exact .throw _
  · rw [if_neg hsize]
    cases m.begin input size 0 with
    | error e => exact audible_say _
    | ok start =>
      simp only
      generalize run m.program start = ended
      obtain ⟨final, status⟩ := ended
      -- the steps are shown first, or not
      have showing : ∀ {next : Act Unit}, Audible World.shown next → Audible World.shown (do
          if (← current).verbose.truth then sayLines (traceEvents m start final)
          next) := by
        intro next hnext
        refine audible_current.bind fun s => ?_
        split
        · exact (audible_sayLines fun e => markup_of_mem_traceEvents).bind fun _ => hnext
        · exact hnext
      cases status with
      | running => exact .throw _
      | failed fault =>
        simp only [reduceCtorEq, if_false]
        exact showing (audible_say _)
      | halted accepted =>
        simp only [reduceCtorEq, if_false]
        exact showing ((audible_change _).bind fun _ => (audible_say _).bind fun _ =>
          audible_logResult _ _ _)

theorem audible_refuseSize (input : String) (size : Json) :
    Audible World.shown (refuseSize input size) := by
  unfold refuseSize
  split
  · exact audible_say _
  · exact audible_say _
  · exact audible_say _
  · exact .throw _

theorem audible_runCommand (args : List String) (now : Moment) :
    Audible World.shown (runCommand args now) := by
  refine audible_current.bind fun s => ?_
  cases s.machine with
  | none => exact audible_say _
  | some m =>
    simp only
    split
    · split
      · exact audible_say _
      · exact audible_runMachine _ _ _ _
    · split
      · exact audible_runMachine _ _ _ _
      · exact audible_refuseSize _ _

theorem audible_debug (word : String) : Audible World.shown (debug word) := by
  unfold debug
  split
  · exact audible_change _
  · split
    · exact audible_change _
    · exact audible_say _

theorem audible_dump : Audible World.shown dump := by
  refine audible_current.bind fun s => ?_
  cases s.machine with
  | none => exact audible_say _
  | some m => exact audible_say _

theorem audible_help : Audible World.shown help := by
  refine audible_sayLines fun e he => ?_
  obtain ⟨c, -, rfl⟩ := List.mem_map.mp he
  exact Event.plain_markup _

theorem audible_perform (now : Moment) (verb : Verb) (args : List String) :
    Audible World.shown (perform now verb args) := by
  cases verb with
  | load => exact audible_load _ _
  | run => exact audible_runCommand _ _
  | debug => exact audible_debug _
  | dump => exact audible_dump
  | help => exact audible_help
  | exit => exact (audible_say _).bind fun _ => audible_change _

/-- A line shows only what the console takes, whatever it says and however it ends. -/
theorem audible_dispatch (now : Moment) (line : String) :
    Audible World.shown (dispatch now line) := by
  unfold dispatch
  split
  · exact (audible_perform _ _ _).bind fun _ => .pure _
  · exact .pure _
  · exact (audible_say _).bind fun _ => .pure _

/-- So do lines one after the other. -/
theorem audible_runLines (now : Moment) {before : String → Act Unit} (clean : String → String)
    (hbefore : ∀ line, Audible World.shown (before line)) (lines : List String) :
    Audible World.shown (runLines now before clean lines) := by
  induction lines with
  | nil => exact .pure _
  | cons line rest ih =>
    refine (hbefore line).bind fun _ => (audible_dispatch _ _).bind fun _ =>
      audible_current.bind fun s => ?_
    split
    · exact ih
    · exact .pure _

theorem audible_interactive (now : Moment) (lines : List String) :
    Audible World.shown (interactive now lines) := by
  refine (audible_say _).bind fun _ => audible_current.bind fun s => ?_
  split
  · exact audible_runLines _ _ (fun _ => .pure _) _
  · exact .pure _

theorem audible_scripted (now : Moment) (lines : List String) :
    Audible World.shown (scripted now lines) :=
  (audible_say _).bind fun _ => audible_runLines _ _ (fun _ => audible_say _) _

end Session

/-! ## Commands of the program -/

namespace CommandLine

variable [Host]

theorem audible_say (e : Event) : Audible Desk.console (say e) := by
  unfold say
  split
  · next h => exact .say h
  · exact .throw _

theorem audible_settingsOf (p : Arguments.Parsed) : Audible Desk.console (settingsOf p) := by
  unfold settingsOf
  split
  · exact .throw _
  · refine Audible.tree.bind fun tree => ?_
    split
    · exact .throw _
    · exact (Audible.onTree _).bind fun _ => .pure _
    · exact (audible_say _).bind fun _ => .pure _

theorem audible_campaign (args : List String) (now : Moment) :
    Audible Desk.console (campaign args now) :=
  (Audible.ofExcept _).bind fun _ => (audible_settingsOf _).bind fun _ =>
  (Campaign.Draft.audible_simulate _ _).mapFailure _

theorem audible_inspect (args : List String) : Audible Desk.console (inspect args) :=
  (Audible.ofExcept _).bind fun _ => Audible.tree.bind fun _ => (Audible.ofExcept _).bind fun _ =>
  (Audible.ofExcept _).bind fun _ => .forM fun _ _ => audible_say _

theorem audible_inSession {act : Session.Act Unit} (h : Audible Session.World.shown act)
    (s : Session) : Audible Desk.console (inSession s act) := fun desk => h ⟨s, desk⟩

theorem audible_openJournal (o : Session.Options) (now : Moment) :
    Audible Desk.console (Session.openJournal o now) := by
  unfold Session.openJournal
  split
  · split
    · rw [← bind_pure_comp]
      exact ((Audible.onTree _).bind fun _ => .pure _).mapFailure _
    · exact .throw _
  · exact .pure _

theorem audible_openSession (args : List String) (now : Moment) :
    Audible Desk.console (openSession args now) :=
  (Audible.ofExcept _).bind fun _ => (audible_settingsOf _).bind fun _ =>
  (((audible_openJournal _ _).bind fun _ => .pure _).mapFailure _).bind fun _ => .pure _

theorem audible_script (s : Session) (commands : List (Option String)) (now : Moment) :
    Audible Desk.console (script s commands now) := by
  refine (audible_inSession (Session.audible_scripted _ _) _).bind fun s => ?_
  split
  · exact (audible_say _).bind fun _ => .throw _
  · exact .pure _

/-- The shell shows only what the console takes, whatever lines it is given. -/
theorem audible_shell (args input : List String) (now : Moment) :
    Audible Desk.console (shell args input now) := by
  refine (audible_openSession _ _).bind fun opened => ?_
  obtain ⟨s, commands⟩ := opened
  cases commands with
  | nil => exact (audible_inSession (Session.audible_interactive _ _) _).bind fun _ => .pure _
  | cons c rest => exact audible_script _ _ _

end CommandLine

end TapeMachine
