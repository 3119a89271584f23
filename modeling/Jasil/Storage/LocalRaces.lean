import Jasil.State.Provider
import Jasil.Transition.Reachability
import Mathlib.Logic.Function.Basic

/-! # Saves and deletes of one local object
An object of the opaque layout is a payload and two identity files, without which it cannot be read. A save
writes the identity files, renames its payload into place and writes the identity files again; a delete, and a
save that fails, take the key file away. Several processes do so at once, one filesystem call at a time.

* **`LocalObject`**: what is on disk, the calls under way, and what was installed and removed so far.
* **`Keeps`**: no key file is taken from a payload that no save will identify again.
* **`readable_of_settled`**: in a run whose steps all do so, an object that is left can be read, and nothing
  that a save has returned for is lost. -/

namespace Jasil.Storage

open State (Bytes)

/-- The address of the object. -/
structure Address where
  area : String
  key : String
  deriving DecidableEq

/-- Which identity file. -/
inductive Identity
  | area
  | key
  deriving DecidableEq

/-- What an identity file has to hold. -/
def Address.value (a : Address) : Identity → String
  | .area => a.area
  | .key => a.key

/-! ## The disk -/

/-- The files of the object. Directories are left out: one is removed only when it is empty, and a call that
finds none fails, as any call may. So are temporary files, which no other call looks at. -/
structure Disk where
  payload : Option Bytes
  areaFile : Option String
  keyFile : Option String
  deriving DecidableEq

namespace Disk

/-- The content of an identity file. -/
def identity (d : Disk) : Identity → Option String
  | .area => d.areaFile
  | .key => d.keyFile

/-- An identity file is linked into its place. -/
def install (d : Disk) (file : Identity) (value : String) : Disk :=
  match file with
  | .area => { d with areaFile := some value }
  | .key => { d with keyFile := some value }

/-- The identity files of the address are in place. -/
def Identified (d : Disk) (a : Address) : Prop := d.areaFile = some a.area ∧ d.keyFile = some a.key

instance (d : Disk) (a : Address) : Decidable (d.Identified a) := inferInstanceAs (Decidable (_ ∧ _))

/-- `get`. -/
def get (d : Disk) (a : Address) : Except State.StateError (Option Bytes) :=
  match d.payload with
  | none => .ok none
  | some data => if d.Identified a then .ok (some data) else .error .unavailable

end Disk

/-! ## Calls under way -/

/-- The two times that a save writes the identity files. -/
inductive Round
  /-- `_prepare_object`. -/
  | preparing
  /-- `_finish_commit`. -/
  | finishing
  deriving DecidableEq

/-- A call, by what it does next. -/
inductive Call
  /-- `_write_identity` reads the file. -/
  | reading (round : Round) (file : Identity) (data : Bytes)
  /-- It has found none: it writes a temporary file and moves it there. -/
  | creating (round : Round) (file : Identity) (data : Bytes)
  /-- It syncs the directory. -/
  | created (round : Round) (file : Identity) (data : Bytes)
  /-- The payload is written to a temporary file. -/
  | staging (data : Bytes)
  /-- `_install` moves it over the object; a first attempt that finds no directory is made again. -/
  | installing (data : Bytes)
  /-- It syncs the directory. -/
  | installed (data : Bytes)
  /-- `_abandon_new_object` looks for the payload. -/
  | abandoning
  /-- It has found none, and takes the key file away. -/
  | clearing
  /-- `delete` looks for the payload. -/
  | looking
  /-- `_verify_object_identity` reads the file. -/
  | verifying (file : Identity)
  | removing
  | removingKey
  /-- Directories that are empty are removed; `raises` says how the call ends then. -/
  | pruning (raises : Bool)
  | saved (data : Bytes)
  | deleted
  /-- It raised `StorageBackendUnavailableError`. -/
  | refused
  deriving DecidableEq

/-- What becomes of the payload. -/
inductive Event
  | installed (call : ℕ) (data : Bytes)
  | removed (call : ℕ)
  deriving DecidableEq

namespace Call

/-- What follows an identity file that is as it should be. -/
def afterIdentity (round : Round) (file : Identity) (data : Bytes) : Call :=
  match round, file with
  | round, .area => .reading round .key data
  | .preparing, .key => .staging data
  | .finishing, .key => .saved data

/-- The next filesystem call is made: what is on disk after it, and what the call does next. -/
def proceed (a : Address) (number : ℕ) (d : Disk) : Call → Option (Disk × Call × List Event)
  | .reading round file data =>
    match d.identity file with
    | none => some (d, .creating round file data, [])
    | some existing =>
      if existing = a.value file then some (d, afterIdentity round file data, []) else some (d, .refused, [])
  | .creating round file data => some (d.install file (a.value file), .created round file data, [])
  | .created round file data => some (d, afterIdentity round file data, [])
  | .staging data => some (d, .installing data, [])
  | .installing data => some ({ d with payload := some data }, .installed data, [.installed number data])
  | .installed data => some (d, .reading .finishing .area data, [])
  | .abandoning => if d.payload.isSome then some (d, .pruning true, []) else some (d, .clearing, [])
  | .clearing => some ({ d with keyFile := none }, .pruning true, [])
  | .looking => if d.payload.isSome then some (d, .verifying .area, []) else some (d, .deleted, [])
  | .verifying file =>
    if d.identity file = some (a.value file) then
      some (d, if file = .area then .verifying .key else .removing, [])
    else some (d, .refused, [])
  | .removing =>
    if d.payload.isSome then some ({ d with payload := none }, .removingKey, [.removed number])
    else some (d, .refused, [])
  | .removingKey => some ({ d with keyFile := none }, .pruning false, [])
  | .pruning raises => some (d, if raises then .refused else .deleted, [])
  | .saved _ | .deleted | .refused => none

/-- The next filesystem call raises. -/
def stumble : Call → Option Call
  | .reading _ _ _ | .creating _ _ _ | .created _ _ _ => some .refused
  | .staging _ | .installing _ | .installed _ => some .abandoning
  | .abandoning | .clearing => some (.pruning true)
  | .looking | .verifying _ | .removing | .removingKey => some .refused
  | .pruning raises => some (if raises then .refused else .deleted)
  | .saved _ | .deleted | .refused => none

/-- The call has returned. -/
def Over : Call → Prop
  | .saved _ | .deleted | .refused => True
  | _ => False

/-- A save that has installed its payload and has yet to see the key file. -/
def Restores : Call → Prop
  | .installed _ | .reading .finishing _ _ | .creating .finishing _ _ | .created .finishing .area _ => True
  | _ => False

instance : DecidablePred Restores := fun c => by
  unfold Restores
  split <;> infer_instance

instance : DecidablePred Over := fun c => by
  unfold Over
  split <;> infer_instance

end Call

/-! ## Interleavings -/

/-- The disk, every call under its number, and what was installed and removed. -/
structure LocalObject where
  disk : Disk
  begun : ℕ
  calls : ℕ → Option Call
  history : List Event

/-- What can happen next. -/
inductive LocalStep
  | save (data : Bytes)
  | delete
  /-- A call makes its next filesystem call. -/
  | proceed (call : ℕ)
  /-- Its next filesystem call raises. -/
  | stumble (call : ℕ)

namespace LocalObject

/-- No call yet. -/
def init (d : Disk) : LocalObject := ⟨d, 0, fun _ => none, []⟩

variable (a : Address) (s : LocalObject)

/-- Another call begins. -/
def begin (c : Call) : LocalObject :=
  { s with begun := s.begun + 1, calls := Function.update s.calls s.begun (some c) }

/-- A call has gone on. -/
def goTo (call : ℕ) (d : Disk) (c : Call) (events : List Event) : LocalObject :=
  { s with disk := d, calls := Function.update s.calls call (some c), history := s.history ++ events }

/-- Take one step. -/
def step (s : LocalObject) : LocalStep → Option LocalObject
  | .save data => some (s.begin (.reading .preparing .area data))
  | .delete => some (s.begin .looking)
  | .proceed call => do
    let (d, c, events) ← (← s.calls call).proceed a call s.disk
    return s.goTo call d c events
  | .stumble call => do
    let c ← (← s.calls call).stumble
    return s.goTo call s.disk c []

/-- A save other than this call has installed its payload and has yet to see the key file. -/
def RestoredByOther (call : ℕ) : Prop := ∃ other < s.begun, other ≠ call ∧ ∃ c ∈ s.calls other, c.Restores

instance (call : ℕ) : Decidable (s.RestoredByOther call) :=
  inferInstanceAs (Decidable (∃ _, _ ∧ _))

/-- **No payload is left without its key file**: where a call takes the key file away, or gives up on
restoring it while it is missing, there is no payload or another save has yet to see the key file. -/
def Keeps (s : LocalObject) : LocalStep → Prop
  | .proceed call =>
    s.calls call = some .clearing ∨ s.calls call = some .removingKey →
      s.disk.payload = none ∨ s.RestoredByOther call
  | .stumble call =>
    (∃ c ∈ s.calls call, c.Restores) →
      s.disk.payload = none ∨ s.disk.keyFile = some a.key ∨ s.RestoredByOther call
  | _ => True

instance (s : LocalObject) (l : LocalStep) : Decidable (s.Keeps a l) := by
  unfold Keeps
  cases l <;> infer_instance

/-- Every call that has begun has returned. -/
def Settled : Prop := ∀ call < s.begun, ∀ c ∈ s.calls call, c.Over

instance : Decidable s.Settled := inferInstanceAs (Decidable (∀ _, _ → _))

/-- What was installed or removed last is what is stored. -/
def lastWrite (initial : Option Bytes) (history : List Event) : Option Bytes :=
  match history.getLast? with
  | none => initial
  | some (.installed _ data) => some data
  | some (.removed _) => none

end LocalObject

/-! ## What a filesystem call does -/

/-- The identity files hold what they should, where they are there. -/
structure Disk.Right (d : Disk) (a : Address) : Prop where
  area : ∀ value ∈ d.areaFile, value = a.area
  key : ∀ value ∈ d.keyFile, value = a.key

namespace Call

/-- A save that has seen the area file. -/
def KnowsArea : Call → Prop
  | .reading .preparing .area _ | .creating .preparing .area _ => False
  | .reading _ _ _ | .creating _ _ _ | .created _ _ _ | .staging _ | .installing _ | .installed _ => True
  | _ => False

/-- A save that has installed its payload. -/
def Wrote (data : Bytes) : Call → Prop
  | .installed data' | .reading .finishing _ data' | .creating .finishing _ data' | .created .finishing _ data'
  | .saved data' => data' = data
  | _ => False

/-- **What one filesystem call does**: it only looks, or it changes one file. -/
inductive Effect (a : Address) (number : ℕ) (d : Disk) (c : Call) : Disk → Call → List Event → Prop
  | looks {c' : Call} (kept : ¬ (c = .clearing ∨ c = .removingKey)) (knows : c'.KnowsArea → c.KnowsArea
    ∨ d.areaFile = some a.area)
      (wrote : ∀ data, c'.Wrote data → c.Wrote data)
      (restores : c.Restores → c'.Restores ∨ d.keyFile = some a.key) :
      Effect a number d c d c' []
  | identifies {round : Round} {file : Identity} {data : Bytes} (hc : c = .creating round file data) :
      Effect a number d c (d.install file (a.value file)) (.created round file data) []
  | installs {data : Bytes} (hc : c = .installing data) :
      Effect a number d c { d with payload := some data } (.installed data) [.installed number data]
  | clears {raises : Bool} (hc : c = .clearing ∨ c = .removingKey) :
      Effect a number d c { d with keyFile := none } (.pruning raises) []
  | removes (hc : c = .removing) :
      Effect a number d c { d with payload := none } .removingKey [.removed number]

variable {a : Address} {number : ℕ} {d d' : Disk} {c c' : Call} {events : List Event}

/-- What follows an identity file is further on in the same round. -/
theorem wrote_afterIdentity {round : Round} {file : Identity} {data data' : Bytes}
    (h : (afterIdentity round file data).Wrote data') : round = .finishing ∧ data = data' := by
  cases round <;> cases file <;> first | exact h.elim | exact ⟨rfl, h⟩

/-- An identity file is read and is as it should be. -/
theorem effect_reading {round : Round} {file : Identity} {data : Bytes}
    (hfile : d.identity file = some (a.value file)) :
    Effect a number d (.reading round file data) d (afterIdentity round file data) [] := by
  refine .looks (by simp) (fun _ => ?_) ?_ ?_
  · cases file with
    | area => exact Or.inr hfile
    | key => cases round <;> exact Or.inl trivial
  · intro data' hwrote
    obtain ⟨rfl, hdata⟩ := wrote_afterIdentity hwrote
    exact hdata
  · intro hrestores
    -- the save restores until it has seen the key file
    cases file with
    | area =>
      cases round with
      | preparing => exact hrestores.elim
      | finishing => exact Or.inl trivial
    | key => exact Or.inr hfile

/-- A directory is synced, after an identity file was written. -/
theorem effect_created {round : Round} {file : Identity} {data : Bytes} :
    Effect a number d (.created round file data) d (afterIdentity round file data) [] := by
  refine .looks (by simp) (fun _ => Or.inl trivial) ?_ ?_
  · intro data' hwrote
    obtain ⟨rfl, hdata⟩ := wrote_afterIdentity hwrote
    exact hdata
  · intro hrestores
    cases round <;> cases file <;> first | exact hrestores.elim | exact Or.inl trivial

/-- A call that knows nothing of the object and has nothing to restore may go anywhere of the kind. -/
theorem Effect.idle (hkept : ¬ (c = .clearing ∨ c = .removingKey)) (hknows : ¬ c'.KnowsArea)
    (hwrote : ∀ data, ¬ c'.Wrote data) (hrestores : ¬ c.Restores) :
    Effect a number d c d c' [] :=
  .looks hkept (fun h => absurd h hknows) (fun data h => absurd h (hwrote data)) fun h => absurd h hrestores

/-- **A step of a call** has one of the effects. -/
theorem effect_of_proceed (hright : d.Right a) (h : c.proceed a number d = some (d', c', events)) :
    Effect a number d c d' c' events := by
  cases c with
  | reading round file data =>
    simp only [proceed] at h
    split at h
    · obtain ⟨rfl, rfl, rfl⟩ := h
      refine .looks (by simp) ?_ ?_ ?_
      all_goals cases round <;> cases file <;> simp [KnowsArea, Wrote, Restores]
    · rename_i existing hexisting
      have hvalue : existing = a.value file := by
        cases file with
        | area => exact hright.area existing hexisting
        | key => exact hright.key existing hexisting
      rw [if_pos hvalue] at h
      obtain ⟨rfl, rfl, rfl⟩ := h
      exact effect_reading (hvalue ▸ hexisting)
  | creating round file data =>
    obtain ⟨rfl, rfl, rfl⟩ := h
    exact .identifies rfl
  | created round file data =>
    obtain ⟨rfl, rfl, rfl⟩ := h
    exact effect_created
  | staging data =>
    obtain ⟨rfl, rfl, rfl⟩ := h
    exact .looks (by simp) Or.inl (fun _ hwrote => hwrote) fun hrestores => hrestores.elim
  | installing data =>
    obtain ⟨rfl, rfl, rfl⟩ := h
    exact .installs rfl
  | installed data =>
    obtain ⟨rfl, rfl, rfl⟩ := h
    exact .looks (by simp) Or.inl (fun _ hwrote => hwrote) fun _ => Or.inl trivial
  | abandoning =>
    simp only [proceed] at h
    split at h <;> obtain ⟨rfl, rfl, rfl⟩ := h <;> exact .idle (by simp) id (fun _ => id) id
  | clearing =>
    obtain ⟨rfl, rfl, rfl⟩ := h
    exact .clears (Or.inl rfl)
  | looking =>
    simp only [proceed] at h
    split at h <;> obtain ⟨rfl, rfl, rfl⟩ := h <;> exact .idle (by simp) id (fun _ => id) id
  | verifying file =>
    simp only [proceed] at h
    split at h
    · obtain ⟨rfl, rfl, rfl⟩ := h
      cases file <;> exact .idle (by simp) id (fun _ => id) id
    · obtain ⟨rfl, rfl, rfl⟩ := h
      exact .idle (by simp) id (fun _ => id) id
  | removing =>
    simp only [proceed] at h
    split at h
    · obtain ⟨rfl, rfl, rfl⟩ := h
      exact .removes rfl
    · obtain ⟨rfl, rfl, rfl⟩ := h
      exact .idle (by simp) id (fun _ => id) id
  | removingKey =>
    obtain ⟨rfl, rfl, rfl⟩ := h
    exact .clears (Or.inr rfl)
  | pruning raises =>
    obtain ⟨rfl, rfl, rfl⟩ := h
    cases raises <;> exact .idle (by simp) id (fun _ => id) id
  | saved data => exact nomatch h
  | deleted => exact nomatch h
  | refused => exact nomatch h

namespace Effect

/-- An effect leaves the identity files right. -/
theorem right (h : Effect a number d c d' c' events) (hright : d.Right a) : d'.Right a := by
  cases h with
  | looks => exact hright
  | @identifies round file data hc =>
    cases file with
    | area => exact ⟨fun value hvalue => (Option.some.inj hvalue).symm, hright.key⟩
    | key => exact ⟨hright.area, fun value hvalue => (Option.some.inj hvalue).symm⟩
  | installs => exact ⟨hright.area, hright.key⟩
  | clears => exact ⟨hright.area, nofun⟩
  | removes => exact ⟨hright.area, hright.key⟩

/-- No call takes the area file away. -/
theorem areaFile (h : Effect a number d c d' c' events) (harea : d.areaFile = some a.area) :
    d'.areaFile = some a.area := by
  cases h with
  | @identifies round file data hc =>
    cases file with
    | area => rfl
    | key => exact harea
  | _ => exact harea

/-- A call that knows the area's file finds it. -/
theorem knowsArea (h : Effect a number d c d' c' events) (hknows : c.KnowsArea → d.areaFile = some a.area)
    (hknows' : c'.KnowsArea) : d'.areaFile = some a.area := by
  cases h with
  | looks _ knows => exact (knows hknows').elim hknows id
  | @identifies round file data hc =>
    cases file with
    | area => rfl
    | key =>
      subst hc
      refine hknows ?_
      cases round <;> trivial
  | installs hc =>
    subst hc
    exact hknows trivial
  | clears => exact hknows'.elim
  | removes => exact hknows'.elim

/-- A payload is only ever installed by a save that knows the area file. -/
theorem areaOfPayload (h : Effect a number d c d' c' events) (hknows : c.KnowsArea → d.areaFile = some a.area)
    (harea : d.payload ≠ none → d.areaFile = some a.area) (hpayload : d'.payload ≠ none) :
    d'.areaFile = some a.area := by
  cases h with
  | looks => exact harea hpayload
  | @identifies round file data hc =>
    cases file with
    | area => rfl
    | key => exact harea hpayload
  | installs hc =>
    subst hc
    exact hknows trivial
  | clears => exact harea hpayload
  | removes => exact absurd rfl hpayload

/-- What a call has written it had written before, or installs it. -/
theorem wrote_or_mem {data : Bytes} (h : Effect a number d c d' c' events) (hwrote : c'.Wrote data) :
    c.Wrote data ∨ .installed number data ∈ events := by
  cases h with
  | looks _ _ wrote => exact Or.inl (wrote data hwrote)
  | @identifies round file data' hc =>
    subst hc
    left
    cases round with
    | preparing => exact hwrote.elim
    | finishing => exact hwrote
  | installs =>
    right
    obtain rfl : _ = data := hwrote
    exact List.mem_cons_self
  | clears => exact hwrote.elim
  | removes => exact hwrote.elim

end Effect

/-- A call that raises has nothing to restore. -/
theorem idle_of_stumble (h : c.stumble = some c') : ¬ c'.KnowsArea ∧ (∀ data, ¬ c'.Wrote data)
    ∧ ¬ c'.Restores := by
  cases c with
  | pruning raises =>
    obtain rfl := Option.some.inj h
    cases raises <;> exact ⟨id, fun _ => id, id⟩
  | saved data => exact nomatch h
  | deleted => exact nomatch h
  | refused => exact nomatch h
  | _ =>
    obtain rfl := Option.some.inj h
    exact ⟨id, fun _ => id, id⟩

end Call

/-! ## The invariant -/

namespace LocalObject

variable {a : Address} {s s' : LocalObject} {initial : Option Bytes} {call : ℕ}

/-- The last write after one more event. -/
theorem lastWrite_concat (history : List Event) (e : Event) :
    lastWrite initial (history ++ [e]) = lastWrite initial [e] := by
  rw [lastWrite, List.getLast?_append_of_ne_nil _ (List.cons_ne_nil _ _)]
  rfl

/-- Some save has installed its payload and has yet to see the key file. -/
def Restored (s : LocalObject) : Prop := ∃ call < s.begun, ∃ c ∈ s.calls call, c.Restores

/-- A payload that is stored has its key file, or will get it. -/
def Identifiable (a : Address) (s : LocalObject) : Prop :=
  s.disk.payload ≠ none → s.disk.keyFile = some a.key ∨ s.Restored

/-- **What holds in every state of the object.** -/
structure Inv (a : Address) (initial : Option Bytes) (s : LocalObject) : Prop where
  numbered : ∀ call, s.calls call ≠ none → call < s.begun
  right : s.disk.Right a
  area : s.disk.payload ≠ none → s.disk.areaFile = some a.area
  knows : ∀ call, ∀ c ∈ s.calls call, c.KnowsArea → s.disk.areaFile = some a.area
  payload : s.disk.payload = lastWrite initial s.history
  wrote : ∀ call data, (∃ c ∈ s.calls call, c.Wrote data) → .installed call data ∈ s.history
  identifiable : s.Identifiable a

/-- A call that begins is the last one. -/
theorem calls_begin (c : Call) : (s.begin c).calls = Function.update s.calls s.begun (some c) := rfl

/-- A call is where it went. -/
theorem calls_goTo (call : ℕ) (d : Disk) (c : Call) (events : List Event) :
    (s.goTo call d c events).calls = Function.update s.calls call (some c) := rfl

/-- A call that is there after one began is that one, or was there. -/
theorem begun_calls {c : Call} {other : ℕ} {c' : Call} (h : (s.begin c).calls other = some c') :
    (other = s.begun ∧ c' = c) ∨ s.calls other = some c' := by
  rw [calls_begin] at h
  by_cases hother : other = s.begun
  · rw [hother, Function.update_self, Option.some.injEq] at h
    exact Or.inl ⟨hother, h.symm⟩
  · rw [Function.update_of_ne hother] at h
    exact Or.inr h

/-- A call that is there after one went on is that one, or was there. -/
theorem goTo_calls {d : Disk} {c c' : Call} {events : List Event} {other : ℕ}
    (h : (s.goTo call d c events).calls other = some c') :
    (other = call ∧ c' = c) ∨ (other ≠ call ∧ s.calls other = some c') := by
  rw [calls_goTo] at h
  by_cases hother : other = call
  · rw [hother, Function.update_self, Option.some.injEq] at h
    exact Or.inl ⟨hother, h.symm⟩
  · rw [Function.update_of_ne hother] at h
    exact Or.inr ⟨hother, h⟩

/-- What other saves restore stays restored. -/
theorem restored_goTo {d : Disk} {c : Call} {events : List Event} (hnumber : call < s.begun) :
    (s.goTo call d c events).Restored ↔ c.Restores ∨ s.RestoredByOther call := by
  constructor
  · rintro ⟨other, hlt, c', hc', hrestores⟩
    rcases goTo_calls hc' with ⟨rfl, rfl⟩ | ⟨hne, hold⟩
    · exact Or.inl hrestores
    · exact Or.inr ⟨other, hlt, hne, c', hold, hrestores⟩
  · rintro (hrestores | ⟨other, hlt, hne, c', hc', hrestores⟩)
    · exact ⟨call, hnumber, c, Function.update_self call _ s.calls, hrestores⟩
    · refine ⟨other, hlt, c', ?_, hrestores⟩
      rw [calls_goTo, Function.update_of_ne hne]
      exact hc'

/-- A call begins: it has nothing to restore and knows nothing. -/
theorem Inv.begin (h : s.Inv a initial) {c : Call} (hknows : ¬ c.KnowsArea) (hwrote : ∀ data, ¬ c.Wrote data) :
    (s.begin c).Inv a initial where
  numbered other hother := by
    cases hc : (s.begin c).calls other with
    | none => exact absurd hc hother
    | some c' =>
      rcases begun_calls hc with ⟨rfl, -⟩ | hold
      · exact Nat.lt_succ_self _
      · exact Nat.lt_succ_of_lt (h.numbered other (hold ▸ Option.some_ne_none c'))
  right := h.right
  area := h.area
  knows other c' hc' hc'knows := by
    rcases begun_calls hc' with ⟨-, rfl⟩ | hold
    · exact absurd hc'knows hknows
    · exact h.knows other c' hold hc'knows
  payload := h.payload
  wrote other data := by
    rintro ⟨c', hc', hc'wrote⟩
    rcases begun_calls hc' with ⟨-, rfl⟩ | hold
    · exact absurd hc'wrote (hwrote data)
    · exact h.wrote other data ⟨c', hold, hc'wrote⟩
  identifiable hpayload := by
    refine (h.identifiable hpayload).imp_right ?_
    rintro ⟨other, hlt, c', hc', hrestores⟩
    refine ⟨other, Nat.lt_succ_of_lt hlt, c', ?_, hrestores⟩
    rw [calls_begin, Function.update_of_ne hlt.ne]
    exact hc'

/-- The key file is there exactly when this call restores it or another one does. -/
theorem Inv.restored_iff (h : s.Inv a initial) {c : Call} (hc : s.calls call = some c) :
    s.Restored ↔ c.Restores ∨ s.RestoredByOther call := by
  have hlt := h.numbered call (hc ▸ Option.some_ne_none c)
  constructor
  · rintro ⟨other, hother, c', hc', hrestores⟩
    by_cases hne : other = call
    · rw [hne, hc, Option.mem_def, Option.some.injEq] at hc'
      exact Or.inl (hc' ▸ hrestores)
    · exact Or.inr ⟨other, hother, hne, c', hc', hrestores⟩
  · rintro (hrestores | ⟨other, hother, -, c', hc', hrestores⟩)
    · exact ⟨call, hlt, c, hc, hrestores⟩
    · exact ⟨other, hother, c', hc', hrestores⟩

/-- **The payload stays identifiable exactly when the key file is kept where it is needed.** -/
theorem Inv.identifiable_goTo_iff (h : s.Inv a initial) {c c' : Call} {d : Disk} {events : List Event}
    (hc : s.calls call = some c) (heffect : Call.Effect a call s.disk c d c' events) :
    (s.goTo call d c' events).Identifiable a
      ↔ (c = .clearing ∨ c = .removingKey → s.disk.payload = none ∨ s.RestoredByOther call) := by
  have hlt := h.numbered call (hc ▸ Option.some_ne_none c)
  have hbefore := h.identifiable
  rw [Identifiable, h.restored_iff hc] at hbefore
  rw [Identifiable, restored_goTo hlt]
  cases heffect with
  | looks hkept _ _ restores =>
    refine iff_of_true (fun hpayload => ?_) fun hclears => absurd hclears hkept
    rcases hbefore hpayload with hkey | hrestores | hother
    · exact Or.inl hkey
    · exact (restores hrestores).symm.imp_right Or.inl
    · exact Or.inr (Or.inr hother)
  | @identifies round file data hcreating =>
    subst hcreating
    refine iff_of_true (fun hpayload => ?_) (by simp)
    cases file with
    | key => exact Or.inl rfl
    | area =>
      rcases hbefore hpayload with hkey | hrestores | hother
      · exact Or.inl hkey
      · cases round with
        | preparing => exact hrestores.elim
        | finishing => exact Or.inr (Or.inl trivial)
      · exact Or.inr (Or.inr hother)
  | installs hinstalling =>
    subst hinstalling
    exact iff_of_true (fun _ => Or.inr (Or.inl trivial)) (by simp)
  -- the key file goes, and who has to restore it must be another call
  | clears hclears =>
    constructor
    · intro hafter _
      by_contra hneither
      rw [not_or] at hneither
      rcases hafter hneither.1 with hkey | hrestores | hother
      · exact nomatch hkey
      · exact hrestores
      · exact hneither.2 hother
    · intro hkeeps hpayload
      exact Or.inr (Or.inr ((hkeeps hclears).resolve_left hpayload))
  | removes hremoving =>
    subst hremoving
    exact iff_of_true (fun hpayload => absurd rfl hpayload) (by simp)

/-- A call goes on. -/
theorem Inv.goTo (h : s.Inv a initial) {c c' : Call} {d : Disk} {events : List Event}
    (hc : s.calls call = some c) (heffect : Call.Effect a call s.disk c d c' events)
    (hkeeps : c = .clearing ∨ c = .removingKey → s.disk.payload = none ∨ s.RestoredByOther call) :
    (s.goTo call d c' events).Inv a initial := by
  have hlt := h.numbered call (hc ▸ Option.some_ne_none c)
  have hnumbered : ∀ other, (s.goTo call d c' events).calls other ≠ none → other < s.begun := by
    intro other hother
    by_cases hne : other = call
    · exact hne ▸ hlt
    · rw [calls_goTo, Function.update_of_ne hne] at hother
      exact h.numbered other hother
  refine ⟨hnumbered, ?_, ?_, ?_, ?_, ?_, (h.identifiable_goTo_iff hc heffect).mpr hkeeps⟩
  · exact heffect.right h.right
  · exact heffect.areaOfPayload (h.knows call c hc) h.area
  · intro other c'' hc'' hknows
    rcases goTo_calls hc'' with ⟨-, rfl⟩ | ⟨-, hold⟩
    · exact heffect.knowsArea (h.knows call c hc) hknows
    · exact heffect.areaFile (h.knows other c'' hold hknows)
  · -- only the two steps at the payload are events
    show d.payload = lastWrite initial (s.history ++ events)
    cases heffect with
    | installs =>
      rw [lastWrite_concat]
      rfl
    | removes =>
      rw [lastWrite_concat]
      rfl
    | @identifies _ file =>
      rw [List.append_nil, ← h.payload]
      cases file <;> rfl
    | _ =>
      rw [List.append_nil, ← h.payload]
  · rintro other data ⟨c'', hc'', hwrote⟩
    show _ ∈ s.history ++ events
    rw [List.mem_append]
    rcases goTo_calls hc'' with ⟨rfl, rfl⟩ | ⟨-, hold⟩
    · exact (heffect.wrote_or_mem hwrote).imp_left fun hbefore => h.wrote other data ⟨c, hc, hbefore⟩
    · exact Or.inl (h.wrote other data ⟨c'', hold, hwrote⟩)

/-- A call raises. -/
theorem Inv.identifiable_stumble_iff (h : s.Inv a initial) {c c' : Call} (hc : s.calls call = some c)
    (hstumble : c.stumble = some c') : (s.goTo call s.disk c' []).Identifiable a
      ↔ (c.Restores → s.disk.payload = none ∨ s.disk.keyFile = some a.key ∨ s.RestoredByOther call) := by
  have hlt := h.numbered call (hc ▸ Option.some_ne_none c)
  have hbefore := h.identifiable
  rw [Identifiable, h.restored_iff hc] at hbefore
  rw [Identifiable, restored_goTo hlt]
  have hidle := (Call.idle_of_stumble hstumble).2.2
  constructor
  · intro hafter _
    by_cases hpayload : s.disk.payload = none
    · exact Or.inl hpayload
    · exact Or.inr ((hafter hpayload).imp_right fun hrestores => hrestores.resolve_left hidle)
  · intro hkeeps hpayload
    rcases hbefore hpayload with hkey | hrestores | hother
    · exact Or.inl hkey
    · exact ((hkeeps hrestores).resolve_left hpayload).imp_right Or.inr
    · exact Or.inr (Or.inr hother)

/-- It is kept when a step of a call fails. -/
theorem Inv.stumble (h : s.Inv a initial) {c c' : Call} (hc : s.calls call = some c)
    (hstumble : c.stumble = some c')
    (hkeeps : c.Restores → s.disk.payload = none ∨ s.disk.keyFile = some a.key ∨ s.RestoredByOther call) :
    (s.goTo call s.disk c' []).Inv a initial := by
  obtain ⟨hknows, hwrote, -⟩ := Call.idle_of_stumble hstumble
  refine ⟨?_, h.right, h.area, ?_, ?_, ?_, (h.identifiable_stumble_iff hc hstumble).mpr hkeeps⟩
  · intro other hother
    by_cases hne : other = call
    · exact hne ▸ h.numbered call (hc ▸ Option.some_ne_none c)
    · rw [calls_goTo, Function.update_of_ne hne] at hother
      exact h.numbered other hother
  · intro other c'' hc'' hc''knows
    rcases goTo_calls hc'' with ⟨-, rfl⟩ | ⟨-, hold⟩
    · exact absurd hc''knows hknows
    · exact h.knows other c'' hold hc''knows
  · show _ = lastWrite initial (s.history ++ [])
    rw [List.append_nil]
    exact h.payload
  · rintro other data ⟨c'', hc'', hc''wrote⟩
    show _ ∈ s.history ++ []
    rw [List.append_nil]
    rcases goTo_calls hc'' with ⟨-, rfl⟩ | ⟨-, hold⟩
    · exact absurd hc''wrote (hwrote data)
    · exact h.wrote other data ⟨c'', hold, hc''wrote⟩

/-- What a step of a call is. -/
theorem proceed_cases (hs : s.step a (.proceed call) = some s') : ∃ c d c' events, s.calls call = some c
    ∧ c.proceed a call s.disk = some (d, c', events) ∧ s' = s.goTo call d c' events := by
  obtain ⟨c, hc, hs⟩ := Option.bind_eq_some_iff.mp hs
  obtain ⟨⟨d, c', events⟩, hproceed, hs⟩ := Option.bind_eq_some_iff.mp hs
  exact ⟨c, d, c', events, hc, hproceed, (Option.some.inj hs).symm⟩

/-- A step that fails does nothing to the disk. -/
theorem stumble_cases (hs : s.step a (.stumble call) = some s') : ∃ c c', s.calls call = some c
    ∧ c.stumble = some c' ∧ s' = s.goTo call s.disk c' [] := by
  obtain ⟨c, hc, hs⟩ := Option.bind_eq_some_iff.mp hs
  obtain ⟨c', hstumble, hs⟩ := Option.bind_eq_some_iff.mp hs
  exact ⟨c, c', hc, hstumble, (Option.some.inj hs).symm⟩

/-- **Every step that keeps the key file where it is needed keeps the invariant.** -/
theorem inv_step (h : s.Inv a initial) {l : LocalStep} (hkeeps : s.Keeps a l) (hs : s.step a l = some s') :
    s'.Inv a initial := by
  cases l with
  | save data =>
    obtain rfl := Option.some.inj hs
    exact h.begin id fun _ => id
  | delete =>
    obtain rfl := Option.some.inj hs
    exact h.begin id fun _ => id
  | proceed call =>
    obtain ⟨c, d, c', events, hc, hproceed, rfl⟩ := proceed_cases hs
    refine h.goTo hc (Call.effect_of_proceed h.right hproceed) fun hclears => hkeeps ?_
    exact hc ▸ hclears.imp (congrArg some) (congrArg some)
  | stumble call =>
    obtain ⟨c, c', hc, hstumble, rfl⟩ := stumble_cases hs
    exact h.stumble hc hstumble fun hrestores => hkeeps ⟨c, hc, hrestores⟩

/-- **And a step that does not leaves a payload that nothing will identify.** -/
theorem keeps_of_identifiable (h : s.Inv a initial) {l : LocalStep} (hs : s.step a l = some s')
    (hafter : s'.Identifiable a) : s.Keeps a l := by
  cases l with
  | save data => trivial
  | delete => trivial
  | proceed call =>
    obtain ⟨c, d, c', events, hc, hproceed, rfl⟩ := proceed_cases hs
    intro hclears
    refine (h.identifiable_goTo_iff hc (Call.effect_of_proceed h.right hproceed)).mp hafter ?_
    rw [hc] at hclears
    exact hclears.imp Option.some.inj Option.some.inj
  | stumble call =>
    obtain ⟨c, c', hc, hstumble, rfl⟩ := stumble_cases hs
    rintro ⟨c'', hc'', hrestores⟩
    obtain rfl := Option.some.inj (hc.symm.trans hc'')
    exact (h.identifiable_stumble_iff hc hstumble).mp hafter hrestores

/-- A disk whose payload, if there is one, can be read. -/
structure Readable (d : Disk) (a : Address) : Prop where
  right : d.Right a
  identified : d.payload ≠ none → d.Identified a

/-- It holds of a readable object. -/
theorem inv_init {d : Disk} (h : Readable d a) : (init d).Inv a d.payload where
  numbered _ h := absurd rfl h
  right := h.right
  area hpayload := (h.identified hpayload).1
  knows _ _ hc := nomatch hc
  payload := rfl
  wrote _ _ := fun ⟨_, hc, _⟩ => nomatch hc
  identifiable hpayload := Or.inl (h.identified hpayload).2

/-- **A committed object stays readable**, where each step keeps the key file: once all calls have returned, a
read gives what was installed last, or nothing when that was removed; and what a save returned for was
installed, and is read when nothing was installed or removed after it. -/
theorem readable_of_settled {d : Disk} (hd : Readable d a) (hreaches : Reaches (step a) (Keeps a) (init d) s)
    (hsettled : s.Settled) : s.disk.get a = .ok (lastWrite d.payload s.history)
      ∧ ∀ call data, s.calls call = some (.saved data) → ∃ before after,
        s.history = before ++ .installed call data :: after ∧ (after = [] → s.disk.get a = .ok (some data)) := by
  have hinv : s.Inv a d.payload := hreaches.invariant (Inv a d.payload) (inv_init hd) fun _ h hkeeps hs =>
    inv_step h hkeeps hs
  have hget : s.disk.get a = .ok (lastWrite d.payload s.history) := by
    rw [← hinv.payload, Disk.get]
    cases hpayload : s.disk.payload with
    | none => rfl
    | some data =>
      have hstored : s.disk.payload ≠ none := hpayload ▸ Option.some_ne_none data
      have hkey : s.disk.keyFile = some a.key := by
        refine (hinv.identifiable hstored).resolve_right ?_
        -- a save that has to see the key file has not returned
        rintro ⟨call, hlt, c, hc, hrestores⟩
        have hover := hsettled call hlt c hc
        cases c with
        | saved data => exact hrestores
        | deleted => exact hrestores
        | refused => exact hrestores
        | _ => exact hover
      dsimp only
      rw [if_pos ⟨hinv.area hstored, hkey⟩]
  refine ⟨hget, fun call data hsaved => ?_⟩
  obtain ⟨before, after, hsplit⟩ := List.append_of_mem (hinv.wrote call data ⟨_, hsaved, rfl⟩)
  refine ⟨before, after, hsplit, ?_⟩
  rintro rfl
  rw [hget, hsplit, lastWrite_concat]
  rfl

/-! ## Two runs -/

/-- `n` filesystem calls of one call. -/
def proceeds (n call : ℕ) : List LocalStep := List.replicate n (.proceed call)

/-- An object is saved; a delete has taken the payload away, and another save completes, before the delete
takes the key file away. -/
def deleteAcrossSave (old new : Bytes) : List LocalStep :=
  .save old :: proceeds 11 0 ++ .delete :: proceeds 4 1 ++ .save new :: proceeds 7 2 ++ proceeds 2 1

/-- The other save has yet to look for the key file when the delete takes it away, and writes it again. -/
def deleteWithinSave (old new : Bytes) : List LocalStep :=
  .save old :: proceeds 11 0 ++ .save new :: proceeds 3 1 ++ .delete :: proceeds 4 2 ++ proceeds 1 1
    ++ proceeds 2 2
    ++ proceeds 5 1

/-- The sample's object. -/
def someAddress : Address := ⟨"thumbnails", "1.webp"⟩

/-- Nothing is stored. -/
def emptyDisk : Disk := ⟨none, none, none⟩

/-- An empty directory can be read. -/
theorem readable_emptyDisk : Readable emptyDisk someAddress := ⟨⟨nofun, nofun⟩, fun h => absurd rfl h⟩

/-- A delete runs within a save, and what was saved is read. -/
theorem readable_of_settled_within : ∃ s : LocalObject, s.calls 1 = some (.saved [2])
    ∧ s.disk.get someAddress = .ok (lastWrite none s.history) ∧ lastWrite none s.history = some [2] := by
  obtain ⟨s, hs⟩ : ∃ s, runChecked (step someAddress) (Keeps someAddress) (init emptyDisk)
      (deleteWithinSave [1] [2]) = some s := Option.isSome_iff_exists.mp (by decide +kernel)
  have hend : ∀ s ∈ runChecked (step someAddress) (Keeps someAddress) (init emptyDisk)
        (deleteWithinSave [1] [2]),
      s.Settled ∧ s.calls 1 = some (.saved [2]) ∧ lastWrite none s.history = some [2] := by
    decide +kernel
  obtain ⟨hsettled, hsaved, hlast⟩ := hend s hs
  exact ⟨s, hsaved, (readable_of_settled readable_emptyDisk (reaches_of_runChecked .refl hs) hsettled).1, hlast⟩

/-- Any step may be taken. -/
abbrev AnyStep (_ : LocalObject) (_ : LocalStep) : Prop := True

/-- The delete takes the key file from the payload of a save that has returned. -/
theorem not_readable_across : ¬ ∀ (a : Address) (d : Disk) (s : LocalObject), Readable d a →
    Reaches (step a) AnyStep (init d) s → s.Settled → s.disk.get a = .ok (lastWrite d.payload s.history) := by
  intro h
  obtain ⟨s, hs⟩ : ∃ s, runChecked (step someAddress) AnyStep (init emptyDisk)
      (deleteAcrossSave [1] [2]) = some s := Option.isSome_iff_exists.mp (by decide +kernel)
  have hend : ∀ s ∈ runChecked (step someAddress) AnyStep (init emptyDisk) (deleteAcrossSave [1] [2]),
      s.Settled ∧ s.disk.get someAddress = .error .unavailable := by
    decide +kernel
  obtain ⟨hsettled, hunavailable⟩ := hend s hs
  have hget := h someAddress emptyDisk s readable_emptyDisk (reaches_of_runChecked .refl hs) hsettled
  exact nomatch hunavailable.symm.trans hget

end LocalObject

end Jasil.Storage
