import TapeMachine.Console
import TapeMachine.FileTree

/-!
# The desk

What the program works on beside its own memory: the files, and the output so far. A task changes
the desk and ends with a value or a failure; what it did before it failed stays done.

## Main statements

* `Task.bind_of_ok`, `Task.bind_of_error` — tasks one after the other
* `Task.leads_bind` — what a sequence of tasks changes, from what each of them does
* `Task.bind_eq_ok` — what a sequence of tasks that ended with a value has done
* `Task.run_say` — saying something adds it to the output and changes no file
-/

namespace TapeMachine

/-- The files and the output so far. -/
structure Desk where
  tree : FileTree
  console : Array Event

/-- Work on the desk that may fail. -/
abbrev Task (ε α : Type) := ExceptT ε (StateM Desk) α

namespace Task

variable {ε ε' α β : Type}

/-- Does a task on a desk: its outcome, and the desk afterwards. -/
def on (desk : Desk) (task : Task ε α) : Except ε α × Desk := task.run desk

/-- Shows something that no console refuses. -/
def say (e : Event) : Task ε Unit := fun d => (.ok (), { d with console := d.console.push e })

def sayAll (es : List Event) : Task ε Unit :=
  fun d => (.ok (), { d with console := d.console ++ es.toArray })

def tree : Task ε FileTree := fun d => (.ok d.tree, d)

def onTree (f : FileTree → Except ε α × FileTree) : Task ε α := fun d =>
  let (r, t) := f d.tree
  (r, { d with tree := t })

/-- A change of the files that is made whole or not at all. -/
def edit (f : FileTree → Except ε FileTree) : Task ε Unit := fun d =>
  match f d.tree with
  | .error e => (.error e, d)
  | .ok t => (.ok (), { d with tree := t })

/-- A value or a failure found without the desk. -/
def ofExcept (x : Except ε α) : Task ε α := fun d => (x, d)

/-- A task whose failures are seen as failures of another kind. -/
def mapFailure (f : ε → ε') (task : Task ε α) : Task ε' α := fun d =>
  let (r, d) := task d
  (r.mapError f, d)

section

variable {σ : Type} {task : ExceptT ε (StateM σ) α} {next : α → ExceptT ε (StateM σ) β} {d d' : σ}

/-- After a task that ends with a value, the next one goes on with it. -/
theorem bind_of_ok {a : α} (h : task d = (.ok a, d')) : (task >>= next) d = next a d' := by
  simp only [bind, ExceptT.bind, ExceptT.mk, StateT.bind, h, ExceptT.bindCont]

theorem bind_of_error {e : ε} (h : task d = (.error e, d')) :
    (task >>= next) d = (.error e, d') := by
  simp only [bind, ExceptT.bind, ExceptT.mk, StateT.bind, h, ExceptT.bindCont]
  rfl

/-- Where each of two tasks leads to, however it ends, both lead to one after the other. -/
theorem leads_bind {R : σ → σ → Prop} (htrans : ∀ {s₁ s₂ s₃}, R s₁ s₂ → R s₂ s₃ → R s₁ s₃)
    (h : R d (task d).2) (hnext : ∀ a d', task d = (.ok a, d') → R d' (next a d').2) :
    R d ((task >>= next) d).2 := by
  cases ht : task d with
  | mk r d₁ =>
    rw [ht] at h
    cases r with
    | error e =>
      rw [bind_of_error ht]
      exact h
    | ok a =>
      rw [bind_of_ok ht]
      exact htrans h (hnext a d₁ ht)

end

theorem tree_bind (next : FileTree → Task ε β) (d : Desk) : (tree >>= next) d = next d.tree d :=
  bind_of_ok rfl

theorem ofExcept_bind {x : Except ε α} {a : α} (h : x = .ok a) (next : α → Task ε β) (d : Desk) :
    (ofExcept x >>= next) d = next a d := bind_of_ok (by rw [h]; rfl)

theorem mapError_bind {x : Except ε' α} {a : α} (h : x = .ok a) (f : ε' → ε) (next : α → Task ε β)
    (d : Desk) : (ofExcept (x.mapError f) >>= next) d = next a d :=
  ofExcept_bind (by rw [h]; rfl) next d

theorem run_pure (a : α) (d : Desk) : (pure a : Task ε α) d = (.ok a, d) := rfl

theorem say_bind (e : Event) (next : Unit → Task ε β) (d : Desk) :
    (say e >>= next) d = next () { d with console := d.console.push e } := bind_of_ok rfl

theorem mapFailure_of_ok {f : ε → ε'} {task : Task ε α} {d d' : Desk} {a : α}
    (h : task d = (.ok a, d')) : task.mapFailure f d = (.ok a, d') := by
  simp only [mapFailure, h]
  rfl

theorem run_say (desk : Desk) (e : Event) :
    on desk (say (ε := ε) e) = (.ok (), { desk with console := desk.console.push e }) := rfl

section

variable {d d' : Desk}

/-! ## What a task that ended with a value has done -/

theorem bind_eq_ok {task : Task ε α} {next : α → Task ε β} {b : β}
    (h : (task >>= next) d = (.ok b, d')) :
    ∃ a d₁, task d = (.ok a, d₁) ∧ next a d₁ = (.ok b, d') := by
  cases ht : task d with
  | mk r d₁ =>
    cases r with
    | error e =>
      rw [bind_of_error ht] at h
      cases h
    | ok a =>
      rw [bind_of_ok ht] at h
      exact ⟨a, d₁, rfl, h⟩

theorem ofExcept_eq_ok {x : Except ε' α} {f : ε' → ε} {a : α}
    (h : ofExcept (x.mapError f) d = (.ok a, d')) : x = .ok a ∧ d' = d := by
  cases x with
  | error e => cases h
  | ok b =>
    cases h
    exact ⟨rfl, rfl⟩

theorem mapFailure_eq_error {f : ε → ε'} {task : Task ε α} {e : ε'}
    (h : task.mapFailure f d = (.error e, d')) : ∃ e₀, task d = (.error e₀, d') ∧ e = f e₀ := by
  unfold mapFailure at h
  cases ht : task d with
  | mk r d₁ =>
    rw [ht] at h
    cases r with
    | error e₀ =>
      cases h
      exact ⟨e₀, rfl, rfl⟩
    | ok b => cases h

theorem mapFailure_eq_ok {f : ε → ε'} {task : Task ε α} {a : α}
    (h : task.mapFailure f d = (.ok a, d')) : task d = (.ok a, d') := by
  unfold mapFailure at h
  cases ht : task d with
  | mk r d₁ =>
    rw [ht] at h
    cases r with
    | error e => cases h
    | ok b =>
      cases h
      rfl

theorem edit_eq_ok {f : FileTree → Except ε FileTree} (h : edit f d = (.ok (), d')) :
    ∃ t, f d.tree = .ok t ∧ d' = { d with tree := t } := by
  unfold edit at h
  cases ht : f d.tree with
  | error e =>
    rw [ht] at h
    cases h
  | ok t =>
    rw [ht] at h
    cases h
    exact ⟨t, rfl, rfl⟩

/-- A change of the files that fails changes nothing. -/
theorem edit_eq_error {f : FileTree → Except ε FileTree} {e : ε} (h : edit f d = (.error e, d')) :
    f d.tree = .error e ∧ d' = d := by
  unfold edit at h
  cases ht : f d.tree with
  | error e' =>
    rw [ht] at h
    cases h
    exact ⟨rfl, rfl⟩
  | ok t =>
    rw [ht] at h
    cases h

end

end Task

end TapeMachine
