import Jasil.Transition.Reachability
import Mathlib.Logic.Function.Basic

/-! # Maps that are written once
Calls put contents under names, and a name that has a content keeps it. A call is accepted when its own
content is stored, also when another call stored it, and refused when another content is.

* **`OnceMap`**: what can be seen of such a map; **`OnceMap.Step`**: what one step may change of it.
* **`WritesOnce`**: what is to hold of a system with such a map in it, over all its runs.
* **`writesOnce_of_steps`**: it holds when each step of the system is one of the map. -/

namespace Jasil

variable {ι ν β σ α : Type*}

/-- What a call is to store. -/
structure Entry (ν β : Type*) where
  name : ν
  content : β

/-- How a call ended. -/
inductive Verdict
  | accepted
  | refused
  deriving DecidableEq

/-- What can be seen of a map. -/
structure OnceMap (ι ν β : Type*) where
  stored : ν → Option β
  began : ι → Prop
  verdict : ι → Option Verdict

namespace OnceMap

variable {entry : ι → Entry ν β} {m m' : OnceMap ι ν β}

/-- Nothing is stored, and no call has ended. -/
def Empty (m : OnceMap ι ν β) : Prop := (∀ name, m.stored name = none) ∧ ∀ i, m.verdict i = none

/-- **What one step may change**: a name that has no content gets that of a call, and a call ends with the
verdict that the content gives. -/
structure Step (entry : ι → Entry ν β) (m m' : OnceMap ι ν β) : Prop where
  began : ∀ i, m.began i → m'.began i
  stored : ∀ name c, m.stored name = some c → m'.stored name = some c
  published : ∀ name c, m.stored name = none → m'.stored name = some c → ∃ i, m'.began i ∧ entry i = ⟨name, c⟩
  accepted : ∀ i, m'.verdict i = some .accepted →
    m.verdict i = some .accepted ∨ m'.stored (entry i).name = some (entry i).content
  refused : ∀ i, m'.verdict i = some .refused →
    m.verdict i = some .refused ∨ ∃ c, m'.stored (entry i).name = some c ∧ c ≠ (entry i).content

/-- **What is stored is what a call had to store**, and the verdicts are right. -/
structure Sound (entry : ι → Entry ν β) (m : OnceMap ι ν β) : Prop where
  stored : ∀ name c, m.stored name = some c → ∃ i, m.began i ∧ entry i = ⟨name, c⟩
  accepted : ∀ i, m.verdict i = some .accepted → m.stored (entry i).name = some (entry i).content
  refused : ∀ i, m.verdict i = some .refused → ∃ c, m.stored (entry i).name = some c ∧ c ≠ (entry i).content

/-- An empty map is sound. -/
theorem Empty.sound (h : m.Empty) : Sound entry m where
  stored name c hc := by
    rw [h.1 name] at hc
    cases hc
  accepted i hi := by
    rw [h.2 i] at hi
    cases hi
  refused i hi := by
    rw [h.2 i] at hi
    cases hi

/-- A step keeps a map sound. -/
theorem Step.sound (h : Step entry m m') (hm : Sound entry m) : Sound entry m' where
  stored name c hc := by
    cases hold : m.stored name with
    | none => exact h.published name c hold hc
    | some old =>
      obtain ⟨i, hbegan, hi⟩ := hm.stored name old hold
      obtain rfl := Option.some.inj ((h.stored name old hold).symm.trans hc)
      exact ⟨i, h.began i hbegan, hi⟩
  accepted i hi := by
    rcases h.accepted i hi with hi | hi
    · exact h.stored _ _ (hm.accepted i hi)
    · exact hi
  refused i hi := by
    rcases h.refused i hi with hi | hi
    · obtain ⟨c, hc, hne⟩ := hm.refused i hi
      exact ⟨c, h.stored _ _ hc, hne⟩
    · exact hi

end OnceMap

/-- When one call goes on, what no call is at is still so. -/
theorem update_ne [DecidableEq ι] {π : Type*} {calls : ι → π} {i j : ι} {p q : π} (hp : p ≠ q)
    (hj : calls j ≠ q) :
    Function.update calls i p j ≠ q := by
  by_cases hij : j = i
  · rwa [hij, Function.update_self]
  · rwa [Function.update_of_ne hij]

/-- **A system writes once**: in every state of every run, what can be seen of it is sound, and in every state
that follows, what is stored is still stored. -/
def WritesOnce (step : σ → α → Option σ) (init : σ) (observe : σ → OnceMap ι ν β)
    (entry : ι → Entry ν β) : Prop :=
  ∀ s, Reaches step (fun _ _ => True) init s → (observe s).Sound entry
    ∧ ∀ s', Reaches step (fun _ _ => True) s s' → ∀ name c, (observe s).stored name = some c →
      (observe s').stored name = some c

/-- **Each step of the system is one of the map**, as long as an invariant holds. -/
theorem writesOnce_of_steps {step : σ → α → Option σ} {init : σ} {observe : σ → OnceMap ι ν β}
    {entry : ι → Entry ν β} (Inv : σ → Prop) (hinit : Inv init) (hempty : (observe init).Empty)
    (hinv : ∀ {s a s'}, Inv s → step s a = some s' → Inv s')
    (hstep : ∀ {s a s'}, Inv s → step s a = some s' → OnceMap.Step entry (observe s) (observe s')) :
    WritesOnce step init observe entry := by
  intro s hs
  obtain ⟨hinvs, hsound⟩ : Inv s ∧ (observe s).Sound entry :=
    hs.invariant (fun s => Inv s ∧ (observe s).Sound entry) ⟨hinit, hempty.sound⟩
      fun _ ih _ h => ⟨hinv ih.1 h, (hstep ih.1 h).sound ih.2⟩
  refine ⟨hsound, fun s' hs' name c hc => ?_⟩
  exact (hs'.invariant (fun s' => Inv s' ∧ (observe s').stored name = some c) ⟨hinvs, hc⟩
    fun _ ih _ h => ⟨hinv ih.1 h, (hstep ih.1 h).stored name c ih.2⟩).2

end Jasil
