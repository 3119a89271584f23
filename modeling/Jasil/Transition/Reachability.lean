import Mathlib.Logic.Basic

/-! # Runs of a guarded transition function
A system is a function `step : σ → α → Option σ`: what the action `a` does in the state `s`, or
`none` when it is not enabled there. Steps of several parties interleave because any action may be
the next one. `Reaches step ok init` is the set of states some run from `init` ends in, all of
whose steps satisfy the side condition `ok` (`fun _ _ => True` when there is none); `runChecked`
executes one such run, for a witness. -/

namespace Jasil

variable {σ α : Type*}

/-- The states that runs from `init` end in, every step of which is enabled and satisfies `ok`. -/
inductive Reaches (step : σ → α → Option σ) (ok : σ → α → Prop) (init : σ) : σ → Prop
  | refl : Reaches step ok init init
  | tail {s : σ} {a : α} {s' : σ} :
      Reaches step ok init s → ok s a → step s a = some s' → Reaches step ok init s'

namespace Reaches

variable {step : σ → α → Option σ} {ok : σ → α → Prop} {init s : σ}

/-- **The invariant rule**: what holds initially and is kept by every step taken from a reachable
state holds in every reachable state. -/
theorem invariant (h : Reaches step ok init s) (Inv : σ → Prop) (h0 : Inv init)
    (hstep : ∀ {s a s'}, Reaches step ok init s → Inv s → ok s a → step s a = some s' → Inv s') :
    Inv s := by
  induction h with
  | refl => exact h0
  | tail hr hok hs ih => exact hstep hr ih hok hs

/-- Runs compose. -/
theorem trans {s' : σ} (h : Reaches step ok init s) (h' : Reaches step ok s s') :
    Reaches step ok init s' := by
  induction h' with
  | refl => exact h
  | tail _ hok hs ih => exact ih.tail hok hs

/-- A run that satisfies a side condition satisfies every weaker one. -/
theorem mono {ok' : σ → α → Prop} (h : Reaches step ok init s)
    (hle : ∀ s a, ok s a → ok' s a) : Reaches step ok' init s :=
  h.invariant _ .refl fun _ ih hok hs => ih.tail (hle _ _ hok) hs

end Reaches

/-- Execute the actions in order from `s`, giving up at the first that is not enabled or does not
satisfy the side condition. -/
def runChecked (step : σ → α → Option σ) (ok : σ → α → Prop) [∀ s a, Decidable (ok s a)] :
    σ → List α → Option σ
  | s, [] => some s
  | s, a :: as => if ok s a then (step s a).bind fun s' => runChecked step ok s' as else none

/-- What an executed run ends in is reachable. -/
theorem reaches_of_runChecked {step : σ → α → Option σ} {ok : σ → α → Prop}
    [∀ s a, Decidable (ok s a)] {init s s' : σ} {as : List α} (h : Reaches step ok init s)
    (hr : runChecked step ok s as = some s') : Reaches step ok init s' := by
  induction as generalizing s with
  | nil =>
    obtain rfl : s = s' := by simpa [runChecked] using hr
    exact h
  | cons a as ih =>
    rw [runChecked] at hr
    split at hr
    · rename_i hok
      obtain ⟨s₁, hs, hr⟩ := Option.bind_eq_some_iff.mp hr
      exact ih (h.tail hok hs) hr
    · exact nomatch hr

/-- The state an executed run ends in, `init` when it gives up. -/
def runTo (step : σ → α → Option σ) (ok : σ → α → Prop) [∀ s a, Decidable (ok s a)] (init : σ)
    (as : List α) : σ :=
  (runChecked step ok init as).getD init

/-- A run that does not give up ends in a reachable state. -/
theorem reaches_runTo {step : σ → α → Option σ} {ok : σ → α → Prop} [∀ s a, Decidable (ok s a)]
    {init : σ} {as : List α} (h : (runChecked step ok init as).isSome = true) :
    Reaches step ok init (runTo step ok init as) := by
  obtain ⟨s, hs⟩ := Option.isSome_iff_exists.mp h
  have hstate : runTo step ok init as = s := by rw [runTo, hs, Option.getD_some]
  rw [hstate]
  exact reaches_of_runChecked .refl hs

/-- A run that does not give up, and what is read off the state it ends in, with one evaluation for both. -/
theorem reaches_runTo_of_map {β : Type*} {step : σ → α → Option σ} {ok : σ → α → Prop}
    [∀ s a, Decidable (ok s a)]
    {init : σ} {as : List α} {f : σ → β} {b : β} (h : (runChecked step ok init as).map f = some b) :
    Reaches step ok init (runTo step ok init as) ∧ f (runTo step ok init as) = b := by
  obtain ⟨s, hs, hb⟩ := Option.map_eq_some_iff.mp h
  refine ⟨reaches_runTo (by rw [hs]; rfl), ?_⟩
  rw [runTo, hs, Option.getD_some, hb]

end Jasil
