import Jasil.Transition.Failing
import Mathlib.Data.Nat.Notation

/-! # Operations that may fail at any time
A program on a state whose every operation is carried out or fails, as something outside decides. What such a
program guarantees it guarantees wherever it fails, and what it does when nothing fails is said apart.

* **`Faulty`, `perform`**: a state with the failures to come, and an operation on it.
* **`Leads`**: what holds after the program, whatever fails; its rules follow the program.
* **`Calmly`**: what the program returns and the state it leads to when nothing fails. -/

namespace Jasil

universe u

/-- A state, and which of the operations to come fail. -/
structure Faulty (φ σ : Type u) where
  state : σ
  faults : ℕ → Option φ

namespace Faulty

variable {φ σ ε α β : Type u}

/-- One operation later. -/
def next (w : Faulty φ σ) : Faulty φ σ := { w with faults := fun i => w.faults (i + 1) }

/-- Nothing fails any more. -/
def Calm (w : Faulty φ σ) : Prop := ∀ i, w.faults i = none

/-- An operation: it changes the state, or fails and leaves it. -/
def perform (raise : φ → ε) (effect : σ → σ) : Failing ε (Faulty φ σ) PUnit :=
  Failing.call fun w =>
    match w.faults 0 with
    | some fault => (.error (raise fault), w.next)
    | none => (.ok ⟨⟩, { w.next with state := effect w.state })

/-- Whether the next operation fails, where that is not raised. -/
def poll : Failing ε (Faulty φ σ) (Option φ) := Failing.call fun w => (.ok (w.faults 0), w.next)

/-- The state. -/
def observe : Failing ε (Faulty φ σ) σ := Failing.call fun w => (.ok w.state, w)

/-! ## Whatever fails -/

/-- **Whatever fails**, the program leads from a state to a result and a state as described. -/
def Leads (p : Failing ε (Faulty φ σ) α) (s : σ) (post : Except ε α → σ → Prop) : Prop :=
  ∀ w : Faulty φ σ, w.state = s → post (p.on w).1 (p.on w).2.state

variable {p : Failing ε (Faulty φ σ) α} {f : α → Failing ε (Faulty φ σ) β} {s s' s'' : σ} {a : α} {b : β}
  {post mid : Except ε α → σ → Prop} {after : Except ε β → σ → Prop} {raise : φ → ε} {effect : σ → σ}

/-- A program leads to what its results imply. -/
theorem Leads.mono (h : Leads p s mid) (himp : ∀ r s', mid r s' → post r s') : Leads p s post :=
  fun w hw => himp _ _ (h w hw)

/-- A value leads to itself. -/
theorem leads_pure (h : post (.ok a) s) : Leads (pure a : Failing ε (Faulty φ σ) α) s post := by
  rintro w rfl
  exact h

/-- An error leads to itself. -/
theorem leads_throw {e : ε} (h : post (.error e) s) :
    Leads (throw e : Failing ε (Faulty φ σ) α) s post := by
  rintro w rfl
  exact h

/-- Any fault may come. -/
theorem leads_poll {post : Except ε (Option φ) → σ → Prop} (h : ∀ fault, post (.ok fault) s) :
    Leads (poll : Failing ε (Faulty φ σ) _) s post := by
  rintro w rfl
  exact h _

/-- Every program leads somewhere. -/
theorem leads_any : Leads p s fun _ _ => True := fun _ _ => trivial

/-- An operation that is carried out, or is not. -/
theorem leads_perform {post : Except ε PUnit → σ → Prop} (hdone : post (.ok ⟨⟩) (effect s))
    (hfailed : ∀ fault, post (.error (raise fault)) s) : Leads (perform raise effect) s post := by
  rintro w rfl
  rw [perform, Failing.on_call]
  cases w.faults 0 with
  | none => exact hdone
  | some fault => exact hfailed fault

/-- **One step after another.** -/
theorem leads_bind (hp : Leads p s mid) (hok : ∀ a s', mid (.ok a) s' → Leads (f a) s' after)
    (herror : ∀ e s', mid (.error e) s' → after (.error e) s') : Leads (p >>= f) s after := by
  intro w hw
  have hfirst := hp w hw
  rw [Failing.on_bind]
  rcases hon : p.on w with ⟨r, w'⟩
  rw [hon] at hfirst
  cases r with
  | ok a => exact hok a w'.state hfirst w' rfl
  | error e => exact herror e w'.state hfirst

/-- Nothing follows what is raised. -/
theorem leads_bind_throw {e : ε} (h : after (.error e) s) :
    Leads ((throw e : Failing ε (Faulty φ σ) α) >>= f) s after := by
  rintro w rfl
  exact h

/-- What is computed comes first. -/
theorem leads_bind_lift {r : Except ε α} (hok : ∀ a, r = .ok a → Leads (f a) s after)
    (herror : ∀ e, r = .error e → after (.error e) s) : Leads (Failing.lift r >>= f) s after := by
  intro w hw
  rw [Failing.on_bind, Failing.on_lift]
  cases r with
  | ok a => exact hok a rfl w hw
  | error e =>
    subst hw
    exact herror e rfl

/-- The state is looked at first. -/
theorem leads_bind_observe {f : σ → Failing ε (Faulty φ σ) β} (h : Leads (f s) s after) :
    Leads (observe >>= f) s after := by
  rintro w rfl
  exact h w rfl

/-- A step that is taken in one case alone. -/
theorem leads_bind_when {c : Prop} [Decidable c] {p : Failing ε (Faulty φ σ) PUnit}
    {f : PUnit → Failing ε (Faulty φ σ) β} {mid : Except ε PUnit → σ → Prop} (hp : c → Leads p s mid)
    (hskip : ¬c → mid (.ok ⟨⟩) s) (hok : ∀ s', mid (.ok ⟨⟩) s' → Leads (f ⟨⟩) s' after)
    (herror : ∀ e s', mid (.error e) s' → after (.error e) s') :
    Leads (if c then p >>= f else f ⟨⟩) s after := by
  split
  · rename_i hc
    exact leads_bind (hp hc) (fun _ => hok) herror
  · rename_i hc
    exact hok s (hskip hc)

/-- **An error that is handled.** -/
theorem leads_tryCatch {handler : ε → Failing ε (Faulty φ σ) α} (hp : Leads p s mid)
    (hok : ∀ a s', mid (.ok a) s' → post (.ok a) s')
    (herror : ∀ e s', mid (.error e) s' → Leads (handler e) s' post) : Leads (tryCatch p handler) s post := by
  intro w hw
  have hfirst := hp w hw
  rw [Failing.on_tryCatch]
  rcases hon : p.on w with ⟨r, w'⟩
  rw [hon] at hfirst
  cases r with
  | ok a => exact hok a w'.state hfirst
  | error e => exact herror e w'.state hfirst w' rfl

/-- What holds whatever fails, holds of a run. -/
theorem Leads.on (h : Leads p s post) {w w' : Faulty φ σ} {r : Except ε α} (hw : w.state = s)
    (hon : p.on w = (r, w')) :
    post r w'.state := by
  have hpost := h w hw
  rwa [hon] at hpost

/-! ## When nothing fails -/

/-- **When nothing fails**, the program returns a value and leads to a state. -/
def Calmly (p : Failing ε (Faulty φ σ) α) (s : σ) (a : α) (s' : σ) : Prop :=
  ∀ w : Faulty φ σ, w.Calm → w.state = s → ∃ w', p.on w = (.ok a, w') ∧ w'.Calm ∧ w'.state = s'

/-- A value is reached. -/
theorem calmly_pure : Calmly (pure a : Failing ε (Faulty φ σ) α) s a s := fun w hcalm hw => ⟨w, rfl, hcalm, hw⟩

/-- So is a result. -/
theorem calmly_lift : Calmly (Failing.lift (.ok a) : Failing ε (Faulty φ σ) α) s a s :=
  fun w hcalm hw => ⟨w, rfl, hcalm, hw⟩

/-- The state is looked at. -/
theorem calmly_observe : Calmly (observe : Failing ε (Faulty φ σ) σ) s s s := by
  rintro w hcalm rfl
  exact ⟨w, rfl, hcalm, rfl⟩

/-- What holds whatever fails, holds when nothing does. -/
theorem leads_of_calmly (h : Calmly p s a s') (hp : Leads p s post) : post (.ok a) s' := by
  obtain ⟨w', hon, -, rfl⟩ := h ⟨s, fun _ => none⟩ (fun _ => rfl) rfl
  exact hp.on rfl hon

/-- Calm stays calm. -/
theorem Calm.next {w : Faulty φ σ} (h : w.Calm) : w.next.Calm := fun i => h (i + 1)

/-- No fault comes. -/
theorem calmly_poll : Calmly (poll : Failing ε (Faulty φ σ) _) s none s := by
  rintro w hcalm rfl
  refine ⟨w.next, ?_, hcalm.next, rfl⟩
  rw [poll, Failing.on_call, hcalm 0]

/-- An effect takes place. -/
theorem calmly_perform : Calmly (perform raise effect) s ⟨⟩ (effect s) := by
  rintro w hcalm rfl
  refine ⟨{ w.next with state := effect w.state }, ?_, hcalm.next, rfl⟩
  rw [perform, Failing.on_call, hcalm 0]

/-- What follows is reached. -/
theorem calmly_bind (hp : Calmly p s a s') (hf : Calmly (f a) s' b s'') : Calmly (p >>= f) s b s'' := by
  intro w hcalm hw
  obtain ⟨w', hon, hcalm', hw'⟩ := hp w hcalm hw
  rw [Failing.on_bind_ok hon]
  exact hf w' hcalm' hw'

/-- Nothing is there to handle. -/
theorem calmly_tryCatch {handler : ε → Failing ε (Faulty φ σ) α} (hp : Calmly p s a s') :
    Calmly (tryCatch p handler) s a s' := by
  intro w hcalm hw
  obtain ⟨w', hon, hcalm', hw'⟩ := hp w hcalm hw
  refine ⟨w', ?_, hcalm', hw'⟩
  rw [Failing.on_tryCatch, hon]

end Faulty

end Jasil
