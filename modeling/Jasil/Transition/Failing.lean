import Mathlib.Init

/-! # Programs that change a state and may fail
What such a program changed before it fails stays changed. A proof follows the program step by step: each step is
replaced by what it returns and by the state after it.

* **`Failing.on`**: what a program returns or raises, and the state after it.
* **`on_bind_ok`, `on_bind_error`, `on_bind_cases`**: a step that returns, and one that fails.
* **`on_tryCatch`**: an error that is handled.
* **`call`, `lift`, `attempt`**: operations that return or fail. -/

namespace Jasil

universe u

/-- Programs on a state that raise errors. -/
abbrev Failing (ε σ : Type u) := ExceptT ε (StateM σ)

namespace Failing

variable {ε σ α β : Type u} {s s' : σ} {a : α} {e : ε}

/-- What the program does to a state. -/
def on (p : Failing ε σ α) (s : σ) : Except ε α × σ := p.run.run s

/-- An operation on the state that returns or fails, as a program. -/
def call (f : σ → Except ε α × σ) : Failing ε σ α := ExceptT.mk fun s => pure (f s)

/-- What is computed without the state. -/
def lift (r : Except ε α) : Failing ε σ α := call fun s => (r, s)

/-- An operation that changes the state, or fails and leaves it. -/
def attempt (f : σ → Except ε σ) : Failing ε σ PUnit :=
  call fun s =>
    match f s with
    | .ok s' => (.ok ⟨⟩, s')
    | .error e => (.error e, s)

/-- A call is what it does. -/
@[simp] theorem on_call (f : σ → Except ε α × σ) : (call f).on s = f s := rfl

/-- A result leaves the state. -/
@[simp] theorem on_lift (r : Except ε α) (s : σ) : (lift r).on s = (r, s) := rfl

/-- A value leaves the state. -/
@[simp] theorem on_pure : (pure a : Failing ε σ α).on s = (.ok a, s) := rfl

/-- An error leaves the state. -/
@[simp] theorem on_throw : (throw e : Failing ε σ α).on s = (.error e, s) := rfl

/-- The state is read. -/
@[simp] theorem on_get : (get : Failing ε σ σ).on s = (.ok s, s) := rfl

/-- The state is set. -/
@[simp] theorem on_set : (set s' : Failing ε σ PUnit).on s = (.ok ⟨⟩, s') := rfl

/-- An error ends what follows. -/
theorem on_bind (p : Failing ε σ α) (f : α → Failing ε σ β) (s : σ) :
    (p >>= f).on s = match p.on s with
      | (.ok a, s') => (f a).on s'
      | (.error e, s') => (.error e, s') := by
  show (StateT.run (ExceptT.run p >>= ExceptT.bindCont f) s) = _
  show (match StateT.run (ExceptT.run p) s with | (r, s') => StateT.run (ExceptT.bindCont f r) s') = _
  unfold on
  rcases StateT.run (ExceptT.run p) s with ⟨r, s'⟩
  cases r with
  | ok a => rfl
  | error e => rfl

/-- A step that returns. -/
theorem on_bind_ok {p : Failing ε σ α} (h : p.on s = (.ok a, s')) (f : α → Failing ε σ β) :
    (p >>= f).on s = (f a).on s' := by
  rw [on_bind, h]

/-- A step that fails. -/
theorem on_bind_error {p : Failing ε σ α} (h : p.on s = (.error e, s')) (f : α → Failing ε σ β) :
    (p >>= f).on s = (.error e, s') := by
  rw [on_bind, h]

/-- **Two steps**: the first one fails, or the second one goes on from there. -/
theorem on_bind_cases {p : Failing ε σ α} {f : α → Failing ε σ β} {r : Except ε β}
    (h : (p >>= f).on s = (r, s')) :
    (∃ e, p.on s = (.error e, s') ∧ r = .error e) ∨ ∃ a s'', p.on s = (.ok a, s'') ∧ (f a).on s'' = (r, s') := by
  rw [on_bind] at h
  rcases hp : p.on s with ⟨first, s''⟩
  rw [hp] at h
  cases first with
  | error e =>
    obtain ⟨rfl, rfl⟩ := Prod.mk.inj h
    exact Or.inl ⟨e, rfl, rfl⟩
  | ok a => exact Or.inr ⟨a, s'', rfl, h⟩

/-- An error that is handled. -/
theorem on_tryCatch (p : Failing ε σ α) (handler : ε → Failing ε σ α) (s : σ) :
    (tryCatch p handler).on s = match p.on s with
      | (.ok a, s') => (.ok a, s')
      | (.error e, s') => (handler e).on s' := by
  unfold on
  show (match p.run.run s with
    | (r, s') => (StateT.run (match r with
      | .ok a => pure (.ok a)
      | .error e => (handler e).run) s' : Id (Except ε α × σ))) = _
  rcases StateT.run (ExceptT.run p) s with ⟨r, s'⟩
  cases r with
  | ok a => rfl
  | error e => rfl

/-- Of two steps that only read and return together, the first one returns. -/
theorem ok_of_bind {p : Except ε α} {f : α → Except ε β} {b : β} (h : p >>= f = .ok b) :
    ∃ a, p = .ok a ∧ f a = .ok b := by
  cases p with
  | error e => cases h
  | ok a => exact ⟨a, rfl, h⟩

/-- Of two steps that only read, the second one fails unless the first one does. -/
theorem error_of_bind {p : Except ε α} {f : α → Except ε β} (h : ∀ a, p = .ok a → ∃ e, f a = .error e) :
    ∃ e, p >>= f = .error e := by
  cases p with
  | error e => exact ⟨e, rfl⟩
  | ok a => exact h a rfl

/-- Checks that all pass. -/
theorem forM_ok {f : α → Except ε PUnit.{u + 1}} {as : List α}
    (h : ∀ a ∈ as, f a = .ok ⟨⟩) : as.forM f = .ok ⟨⟩ := by
  induction as with
  | nil => rfl
  | cons a as ih =>
    obtain ⟨hfirst, hrest⟩ := List.forall_mem_cons.mp h
    show (f a >>= fun _ => as.forM f) = _
    rw [hfirst]
    exact ih hrest

/-- One check that fails is enough. -/
theorem error_of_forM {f : α → Except ε PUnit.{u + 1}} {as : List α} {a : α} (ha : a ∈ as)
    (h : ∃ e, f a = .error e) :
    ∃ e, as.forM f = .error e := by
  induction as with
  | nil => cases ha
  | cons b as ih =>
    rcases List.mem_cons.mp ha with rfl | ha
    · obtain ⟨e, he⟩ := h
      refine ⟨e, ?_⟩
      show (f a >>= fun _ => as.forM f) = _
      rw [he]
      rfl
    · exact error_of_bind fun _ _ => ih ha

end Failing

end Jasil
