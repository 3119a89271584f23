import Mathlib.Data.Rat.Defs
import Mathlib.Logic.Function.Basic
import Jasil.Transition.Reachability

/-! # Backends that follow their settings
`ReloadingBackend.resolve` asks the host for the current settings and hands out the backend that was built from
them. Reads are numbered, so that a slow read of older settings does not overwrite what a newer one built. The
number is taken before the source is called.

* **`Reloading`**: the calls under way, each step of which is scheduled on its own.
* **`InOrder`**: no read looks at the settings after a read of a later number has seen older ones.
* **`resolve_newest`**: where that holds, a call hands out what was built from the newest settings, and no result
  of older settings replaces one of newer settings. -/

namespace Jasil.Platform

/-- What building from `settings` produced: a backend, or the reason why there is none. -/
structure Outcome (S B : Type*) where
  settings : S
  backend : Option B
  rejection : Option String := none
  /-- Set for a failure that may pass: until then the outcome is reused. -/
  retryAt : Option ℚ := none

/-- What a build does. -/
inductive BuildResult (B : Type*)
  | backend (b : B)
  /-- `TransientBuildError`. -/
  | transient (message : String)
  | rejected (message : String)

/-- `TRANSIENT_RETRY_SECONDS`. -/
def transientRetrySeconds : ℚ := 30

variable {S B : Type*}

/-- `_rebuild`. -/
def rebuild (fresh : S) (result : BuildResult B) (monotonic : ℚ) : Outcome S B :=
  match result with
  | .backend b => ⟨fresh, some b, none, none⟩
  | .transient message => ⟨fresh, none, some message, some (monotonic + transientRetrySeconds)⟩
  | .rejected message => ⟨fresh, none, some message, none⟩

/-- Whatever comes of a build, it is the outcome of its settings. -/
theorem settings_rebuild (fresh : S) (result : BuildResult B) (monotonic : ℚ) :
    (rebuild fresh result monotonic).settings = fresh := by
  cases result <;> rfl

/-- `_retry_due`. -/
def Outcome.RetryDue (o : Outcome S B) (monotonic : ℚ) : Prop :=
  ∃ t ∈ o.retryAt, t ≤ monotonic

instance (o : Outcome S B) (monotonic : ℚ) : Decidable (o.RetryDue monotonic) :=
  inferInstanceAs (Decidable (∃ _ ∈ _, _))

/-! ## Calls under way -/

/-- A call of `resolve`. The settings have versions, counted by an onlooker: `began` is the version when the
source was called, `seen` the one that the source returned. -/
inductive Resolve (S B : Type*)
  /-- It has its number. -/
  | numbered
  /-- The source is running. -/
  | calling (began : ℕ)
  /-- The source has returned. -/
  | looked (began seen : ℕ) (fresh : S)
  /-- The source has raised. -/
  | failed
  /-- It holds the lock and builds. -/
  | building (began seen : ℕ) (fresh : S)
  | returned (began seen : ℕ) (o : Outcome S B)
  /-- It returned the last backend, as the source had raised. -/
  | fellBack (o : Outcome S B)
  /-- It raised `SourceUnavailableError`. -/
  | raised

/-- The version of the settings that the call has seen. -/
def Resolve.seen : Resolve S B → Option ℕ
  | .looked _ seen _ | .building _ seen _ | .returned _ seen _ => some seen
  | _ => none

/-- A `ReloadingBackend`, the host's settings, and every call so far under its number. -/
structure Reloading (S B : Type*) where
  /-- What the host's source returns. -/
  settings : S
  version : ℕ
  /-- The next number. -/
  reads : ℕ
  calls : ℕ → Option (Resolve S B)
  current : Option (Outcome S B)
  /-- `None` for `-1`. -/
  appliedRead : Option ℕ
  /-- The lock is held by the call that builds. -/
  locked : Bool
  /-- The version of the settings that the current outcome is the outcome of. -/
  currentVersion : ℕ

/-- What can happen next; a call is named by its number. -/
inductive ReloadStep (S B : Type*)
  /-- The host changes the settings. -/
  | change (settings : S)
  /-- A call begins and takes its number. -/
  | number
  | callSource (read : ℕ)
  /-- The source returns the settings. -/
  | look (read : ℕ)
  /-- The source raises. -/
  | fail (read : ℕ)
  /-- It falls back on the last backend, if there is one. -/
  | fallBack (read : ℕ)
  /-- It takes the lock, and returns or begins to build. -/
  | lock (read : ℕ) (monotonic : ℚ)
  /-- The build ends, and its result is published. -/
  | built (read : ℕ) (result : BuildResult B) (monotonic : ℚ)

namespace Reloading

/-- No call yet. -/
def init (settings : S) : Reloading S B :=
  ⟨settings, 0, 0, fun _ => none, none, none, false, 0⟩

/-- The state after a step of one call. -/
def goTo (s : Reloading S B) (read : ℕ) (r : Resolve S B) : Reloading S B :=
  { s with calls := Function.update s.calls read (some r) }

/-- A read that took its number after this one has already been applied. -/
def Overtaken (s : Reloading S B) (read : ℕ) : Prop :=
  ∃ applied ∈ s.appliedRead, read < applied

instance (s : Reloading S B) (read : ℕ) : Decidable (s.Overtaken read) :=
  inferInstanceAs (Decidable (∃ _ ∈ _, _))

variable [DecidableEq S]

/-- What `resolve` does under the lock, with the settings it has read. -/
def apply (s : Reloading S B) (read began seen : ℕ) (fresh : S) (monotonic : ℚ) : Reloading S B :=
  match s.current with
  | some o =>
    if s.Overtaken read then s.goTo read (.returned began seen o)
    else
      let s := { s with appliedRead := some read }
      if o.settings ≠ fresh ∨ o.RetryDue monotonic then
        { s.goTo read (.building began seen fresh) with locked := true }
      else { s.goTo read (.returned began seen o) with currentVersion := seen }
  | none =>
    { s.goTo read (.building began seen fresh) with appliedRead := some read, locked := true }

/-- Take one step. -/
def step (s : Reloading S B) : ReloadStep S B → Option (Reloading S B)
  | .change settings =>
    if settings = s.settings then none else some { s with settings, version := s.version + 1 }
  | .number => some { s.goTo s.reads .numbered with reads := s.reads + 1 }
  | .callSource read =>
    match s.calls read with
    | some .numbered => some (s.goTo read (.calling s.version))
    | _ => none
  | .look read =>
    match s.calls read with
    | some (.calling began) => some (s.goTo read (.looked began s.version s.settings))
    | _ => none
  | .fail read =>
    match s.calls read with
    | some (.calling _) => some (s.goTo read .failed)
    | _ => none
  | .fallBack read =>
    match s.calls read, s.locked with
    | some .failed, false =>
      match s.current with
      | some o =>
        if o.backend.isSome then some (s.goTo read (.fellBack o)) else some (s.goTo read .raised)
      | none => some (s.goTo read .raised)
    | _, _ => none
  | .lock read monotonic =>
    match s.calls read, s.locked with
    | some (.looked began seen fresh), false => some (s.apply read began seen fresh monotonic)
    | _, _ => none
  | .built read result monotonic =>
    match s.calls read with
    | some (.building began seen fresh) =>
      let o := rebuild fresh result monotonic
      some { s.goTo read (.returned began seen o) with
        current := some o, locked := false, currentVersion := seen }
    | _ => none

end Reloading

/-! ## Which settings a call has seen -/

namespace Reloading

/-- The version of the settings that the call of a number has seen. -/
def seenBy (s : Reloading S B) (read : ℕ) : Option ℕ :=
  (s.calls read).bind Resolve.seen

/-- **The settings are seen in the order of the numbers**: when a read looks at them, the reads of later numbers
that have looked saw these same settings. -/
def InOrder (s : Reloading S B) : ReloadStep S B → Prop
  | .look read => ∀ later < s.reads, read < later → ∀ v ∈ s.seenBy later, v = s.version
  | _ => True

instance (s : Reloading S B) (a : ReloadStep S B) : Decidable (s.InOrder a) := by
  unfold InOrder
  cases a <;> infer_instance

/-- What a call knows fits the settings. -/
def Fits (s : Reloading S B) : Resolve S B → Prop
  | .calling began => began ≤ s.version
  | .looked began seen fresh | .building began seen fresh =>
    began ≤ seen ∧ seen ≤ s.version ∧ (seen = s.version → fresh = s.settings)
  | .returned began seen o =>
    began ≤ seen ∧ seen ≤ s.version ∧ (began = s.version → o.settings = s.settings)
  | _ => True

/-- Reads see the settings in the order of their numbers. -/
structure Knows (s : Reloading S B) : Prop where
  numbered : ∀ read, s.calls read ≠ none → read < s.reads
  fits : ∀ read, ∀ r ∈ s.calls read, s.Fits r
  ordered : ∀ read later, read < later → ∀ v ∈ s.seenBy read, ∀ v' ∈ s.seenBy later, v ≤ v'

/-- The current outcome is of the read applied last. -/
structure Inv (s : Reloading S B) : Prop extends s.Knows where
  nothing : s.current = none → s.locked = false → s.currentVersion = 0
  applied : ∀ o ∈ s.current, s.locked = false → ∃ read, s.appliedRead = some read
    ∧ s.seenBy read = some s.currentVersion ∧ (s.currentVersion = s.version → o.settings = s.settings)
  building : ∀ read began seen fresh, s.calls read = some (.building began seen fresh) →
    s.locked = true ∧ s.appliedRead = some read ∧ s.currentVersion ≤ seen

/-- It holds before the first call. -/
theorem inv_init (settings : S) : (init settings : Reloading S B).Inv where
  numbered _ h := absurd rfl h
  fits _ _ h := nomatch h
  ordered _ _ _ _ h := nomatch h
  nothing _ _ := rfl
  applied _ h := nomatch h
  building _ _ _ _ h := nomatch h

section Steps

variable {s s' : Reloading S B} {read : ℕ} {r : Resolve S B}

/-- A call is where it went. -/
theorem calls_goTo_self : (s.goTo read r).calls read = some r := Function.update_self ..

/-- Other calls stay where they are. -/
theorem calls_goTo_of_ne {other : ℕ} (h : other ≠ read) : (s.goTo read r).calls other = s.calls other :=
  Function.update_of_ne h ..

/-- A step that looks at nothing leaves what the calls have seen. -/
theorem seenBy_goTo (h : r.seen = s.seenBy read) : (s.goTo read r).seenBy = s.seenBy := by
  funext other
  by_cases ho : other = read
  · subst ho
    rw [seenBy, calls_goTo_self]
    exact h
  · rw [seenBy, calls_goTo_of_ne ho, seenBy]

/-- A call goes on, without a look. -/
theorem Knows.goTo (h : s.Knows) (hnumber : read < s.reads) (hseen : r.seen = s.seenBy read)
    (hfits : s.Fits r) : (s.goTo read r).Knows where
  numbered other hother := by
    by_cases ho : other = read
    · exact ho ▸ hnumber
    · rw [calls_goTo_of_ne ho] at hother
      exact h.numbered other hother
  fits other r' hr' := by
    by_cases ho : other = read
    · subst ho
      rw [calls_goTo_self] at hr'
      obtain rfl := Option.some.inj hr'
      exact hfits
    · rw [calls_goTo_of_ne ho] at hr'
      exact h.fits other r' hr'
  ordered := by
    rw [seenBy_goTo hseen]
    exact h.ordered

/-- No call but this one builds. -/
theorem Inv.not_building (h : s.Inv) (hfree : s.locked = false) {other began seen : ℕ} {fresh : S} :
    s.calls other ≠ some (.building began seen fresh) :=
  fun hother => nomatch hfree.symm.trans (h.building other began seen fresh hother).1

/-- It goes on without the lock. -/
theorem Inv.goTo (h : s.Inv) (hnumber : read < s.reads) (hseen : r.seen = s.seenBy read) (hfits : s.Fits r)
    (hbuilding : ∀ began seen fresh, r ≠ .building began seen fresh) : (s.goTo read r).Inv where
  toKnows := h.toKnows.goTo hnumber hseen hfits
  nothing := h.nothing
  applied o ho hfree := by
    rw [seenBy_goTo hseen]
    exact h.applied o ho hfree
  building other began seen fresh hother := by
    by_cases ho : other = read
    · subst ho
      rw [calls_goTo_self] at hother
      exact absurd (Option.some.inj hother) (hbuilding began seen fresh)
    · rw [calls_goTo_of_ne ho] at hother
      exact h.building other began seen fresh hother

/-- It takes the lock and builds. -/
theorem Inv.startBuild (h : s.Inv) (hfree : s.locked = false) {began seen : ℕ} {fresh : S}
    (hcall : s.calls read = some (.looked began seen fresh)) (hle : s.currentVersion ≤ seen) :
    Inv { s.goTo read (.building began seen fresh) with appliedRead := some read, locked := true } where
  toKnows :=
    have hknows := h.toKnows.goTo (h.numbered read (by rw [hcall]; nofun))
      (r := .building began seen fresh) (by rw [seenBy, hcall]; rfl)
      (h.fits read (.looked began seen fresh) hcall)
    ⟨hknows.numbered, hknows.fits, hknows.ordered⟩
  nothing _ hlocked := nomatch hlocked
  applied _ _ hlocked := nomatch hlocked
  building other began' seen' fresh' hother := by
    by_cases ho : other = read
    · subst ho
      have heq := Option.some.inj (calls_goTo_self.symm.trans hother)
      obtain ⟨-, rfl, -⟩ := Resolve.building.inj heq
      exact ⟨rfl, rfl, hle⟩
    · have hold := (calls_goTo_of_ne ho).symm.trans hother
      exact absurd hold (h.not_building hfree)

/-- It returns an outcome of the settings it has seen, which is the current one from now on. -/
theorem Inv.publish (h : s.Inv) {began seen : ℕ} {fresh : S} {o : Outcome S B}
    (hcall : s.calls read = some (.looked began seen fresh) ∧ s.locked = false
      ∨ s.calls read = some (.building began seen fresh)) (ho : o.settings = fresh) :
    Inv { s.goTo read (.returned began seen o) with
      current := some o, appliedRead := some read, locked := false, currentVersion := seen } := by
  have hseen : s.seenBy read = some seen := by
    rcases hcall with ⟨hcall, -⟩ | hcall
    · rw [seenBy, hcall]
      rfl
    · rw [seenBy, hcall]
      rfl
  have hfits : began ≤ seen ∧ seen ≤ s.version ∧ (seen = s.version → fresh = s.settings) := by
    rcases hcall with ⟨hcall, -⟩ | hcall
    · exact h.fits read _ hcall
    · exact h.fits read _ hcall
  have hnumber : read < s.reads := by
    refine h.numbered read ?_
    rcases hcall with ⟨hcall, -⟩ | hcall
    · rw [hcall]
      nofun
    · rw [hcall]
      nofun
  have hnow (hv : seen = s.version) : o.settings = s.settings := ho.trans (hfits.2.2 hv)
  have hknows : (s.goTo read (.returned began seen o)).Knows := by
    refine h.toKnows.goTo hnumber hseen.symm ⟨hfits.1, hfits.2.1, fun hv => hnow ?_⟩
    -- the settings are those of when the call began
    have hle := hfits.1
    have hle' := hfits.2.1
    omega
  refine ⟨⟨hknows.numbered, hknows.fits, hknows.ordered⟩, nofun, ?_, ?_⟩
  · intro o' ho' _
    obtain rfl := Option.some.inj ho'
    refine ⟨read, rfl, ?_, hnow⟩
    show (s.goTo read _).seenBy read = some seen
    rw [seenBy, calls_goTo_self]
    rfl
  · intro other began' seen' fresh' hother
    by_cases hne : other = read
    · subst hne
      exact nomatch calls_goTo_self.symm.trans hother
    · have hold := (calls_goTo_of_ne hne).symm.trans hother
      -- the lock is held by one call at most
      rcases hcall with ⟨-, hfree⟩ | hcall
      · exact absurd hold (h.not_building hfree)
      · have hread := (h.building read _ _ _ hcall).2.1
        have hread' := (h.building other _ _ _ hold).2.1
        exact absurd (Option.some.inj (hread'.symm.trans hread)) hne

/-- No call has seen settings to come. -/
theorem Knows.seen_le (h : s.Knows) {seen : ℕ} (hseen : s.seenBy read = some seen) : seen ≤ s.version := by
  obtain ⟨r, hr, hrseen⟩ := Option.bind_eq_some_iff.mp hseen
  have hfits := h.fits read r hr
  cases r with
  | looked | building | returned =>
    obtain rfl := Option.some.inj hrseen
    exact hfits.2.1
  | _ => exact nomatch hrseen

/-- The settings that a call saw are no older than those of the current outcome, when it is not overtaken. -/
theorem Inv.currentVersion_le (h : s.Inv) (hfree : s.locked = false) {o : Outcome S B} (ho : s.current = some o)
    {seen : ℕ} (hseen : s.seenBy read = some seen) (hlast : ¬ s.Overtaken read) : s.currentVersion ≤ seen := by
  obtain ⟨applied, happlied, hversion, -⟩ := h.applied o ho hfree
  rcases Nat.lt_or_ge applied read with hlt | hge
  · exact h.ordered applied read hlt _ hversion _ hseen
  · rcases Nat.eq_or_lt_of_le hge with rfl | hlt
    · exact (Option.some.inj (hversion.symm.trans hseen)).le
    · exact absurd ⟨applied, happlied, hlt⟩ hlast

/-- **What is done under the lock.** -/
theorem Inv.apply [DecidableEq S] (h : s.Inv) (hfree : s.locked = false) {began seen : ℕ} {fresh : S}
    (hcall : s.calls read = some (.looked began seen fresh)) (monotonic : ℚ) :
    (s.apply read began seen fresh monotonic).Inv
      ∧ s.currentVersion ≤ (s.apply read began seen fresh monotonic).currentVersion := by
  have hseen : s.seenBy read = some seen := by
    rw [seenBy, hcall]
    rfl
  have hnumber : read < s.reads := h.numbered read (by rw [hcall]; nofun)
  obtain ⟨hbegan, hversion, hnow⟩ : began ≤ seen ∧ seen ≤ s.version ∧ (seen = s.version → fresh = s.settings) :=
    h.fits read _ hcall
  unfold Reloading.apply
  cases hcurrent : s.current with
  | none =>
    have hzero := h.nothing hcurrent hfree
    exact ⟨h.startBuild hfree hcall (by omega), le_rfl⟩
  | some o =>
    dsimp only
    by_cases hover : s.Overtaken read
    · -- a later number was applied: its settings are no older
      rw [if_pos hover]
      refine ⟨h.goTo hnumber hseen.symm ⟨hbegan, hversion, fun hv => ?_⟩ nofun, le_rfl⟩
      obtain ⟨applied, happlied, hcurrentVersion, hoNow⟩ := h.applied o hcurrent hfree
      obtain ⟨later, hlater, hlt⟩ := hover
      obtain rfl := Option.some.inj (happlied.symm.trans hlater)
      have hle := h.ordered read applied hlt _ hseen _ hcurrentVersion
      have hle' := h.seen_le hcurrentVersion
      exact hoNow (by omega)
    · rw [if_neg hover]
      have hle := h.currentVersion_le hfree hcurrent hseen hover
      by_cases hbuild : o.settings ≠ fresh ∨ o.RetryDue monotonic
      · rw [if_pos hbuild, ← hcurrent]
        exact ⟨h.startBuild hfree hcall hle, le_rfl⟩
      · rw [if_neg hbuild]
        rw [not_or, not_not] at hbuild
        have hpublish := h.publish (.inl ⟨hcall, hfree⟩) hbuild.1
        rw [← hfree] at hpublish
        exact ⟨hpublish, hle⟩

/-- **A look** at the newest settings, those of later numbers having seen no others. -/
theorem Inv.look (h : s.Inv) {began : ℕ} (hcall : s.calls read = some (.calling began))
    (hok : ∀ later < s.reads, read < later → ∀ v ∈ s.seenBy later, v = s.version) :
    (s.goTo read (.looked began s.version s.settings)).Inv := by
  have hbegan : began ≤ s.version := h.fits read _ hcall
  have hnone : s.seenBy read = none := by
    rw [seenBy, hcall]
    rfl
  have hother {other : ℕ} (ho : other ≠ read) :
      (s.goTo read (.looked began s.version s.settings)).seenBy other = s.seenBy other := by
    rw [seenBy, calls_goTo_of_ne ho, seenBy]
  have hself : (s.goTo read (.looked began s.version s.settings)).seenBy read = some s.version := by
    rw [seenBy, calls_goTo_self]
    rfl
  refine ⟨⟨fun other hcalls => ?_, fun other r hr => ?_, fun first later hlt v hv v' hv' => ?_⟩, h.nothing,
    fun o ho hfree => ?_, fun other _ _ _ hbuilding => ?_⟩
  · by_cases ho : other = read
    · exact ho ▸ h.numbered read (by rw [hcall]; nofun)
    · rw [calls_goTo_of_ne ho] at hcalls
      exact h.numbered other hcalls
  · by_cases ho : other = read
    · subst ho
      obtain rfl := Option.some.inj (calls_goTo_self.symm.trans hr)
      exact ⟨hbegan, le_rfl, fun _ => rfl⟩
    · rw [calls_goTo_of_ne ho] at hr
      exact h.fits other r hr
  · -- it has seen the newest, and those of later numbers have seen no older
    by_cases hfirst : first = read
    · subst hfirst
      rw [hself] at hv
      obtain rfl := Option.some.inj hv
      rw [hother hlt.ne'] at hv'
      obtain ⟨r, hr, -⟩ := Option.bind_eq_some_iff.mp hv'
      exact (hok later (h.numbered later (by rw [hr]; nofun)) hlt v' hv').ge
    · rw [hother hfirst] at hv
      by_cases hlater : later = read
      · subst hlater
        rw [hself] at hv'
        obtain rfl := Option.some.inj hv'
        exact h.seen_le hv
      · rw [hother hlater] at hv'
        exact h.ordered first later hlt v hv v' hv'
  · obtain ⟨applied, happlied, hseen, hnow⟩ := h.applied o ho hfree
    refine ⟨applied, happlied, ?_, hnow⟩
    rw [hother fun heq => ?_]
    · exact hseen
    · rw [heq, hnone] at hseen
      exact nomatch hseen
  · by_cases ho : other = read
    · subst ho
      exact nomatch calls_goTo_self.symm.trans hbuilding
    · rw [calls_goTo_of_ne ho] at hbuilding
      exact h.building other _ _ _ hbuilding

/-- **Every step**, when the settings are seen in the order of the numbers. -/
theorem inv_step [DecidableEq S] {a : ReloadStep S B} (h : s.Inv) (hok : s.InOrder a)
    (hs : s.step a = some s') : s'.Inv ∧ s.currentVersion ≤ s'.currentVersion := by
  cases a with
  | change settings =>
    rw [step] at hs
    obtain ⟨-, hs⟩ := Option.ite_none_left_eq_some.mp hs
    obtain rfl := Option.some.inj hs
    refine ⟨⟨⟨h.numbered, fun read r hr => ?_, h.ordered⟩, h.nothing, fun o ho hfree => ?_, h.building⟩, le_rfl⟩
    · -- what was seen is of an older version now
      have hold := h.fits read r hr
      cases r with
      | calling began => exact Nat.le_succ_of_le hold
      | looked | building | returned =>
        obtain ⟨hbegan, hseen, -⟩ := hold
        exact ⟨hbegan, Nat.le_succ_of_le hseen, fun hv => by dsimp only at hv; omega⟩
      | _ => trivial
    · obtain ⟨read, hread, hseen, -⟩ := h.applied o ho hfree
      refine ⟨read, hread, hseen, fun hv => ?_⟩
      have hle := h.seen_le hseen
      dsimp only at hv
      omega
  | number =>
    obtain rfl := Option.some.inj hs
    have hnew : s.calls s.reads = none := by
      -- a new number belongs to no call
      by_contra hold
      exact lt_irrefl _ (h.numbered _ hold)
    have hmore : Inv { s with reads := s.reads + 1 } :=
      ⟨⟨fun read hread => Nat.lt_succ_of_lt (h.numbered read hread), h.fits, h.ordered⟩, h.nothing, h.applied,
        h.building⟩
    exact ⟨hmore.goTo (Nat.lt_succ_self s.reads) (by rw [seenBy, hnew]; rfl) trivial nofun, le_rfl⟩
  | callSource read =>
    simp only [step] at hs
    split at hs
    · rename_i hcall
      obtain rfl := Option.some.inj hs
      exact ⟨h.goTo (h.numbered read (by rw [hcall]; nofun)) (by rw [seenBy, hcall]; rfl) le_rfl nofun, le_rfl⟩
    · exact nomatch hs
  | look read =>
    simp only [step] at hs
    split at hs
    · rename_i began hcall
      obtain rfl := Option.some.inj hs
      exact ⟨h.look hcall hok, le_rfl⟩
    · exact nomatch hs
  | fail read =>
    simp only [step] at hs
    split at hs
    · rename_i hcall
      obtain rfl := Option.some.inj hs
      exact ⟨h.goTo (h.numbered read (by rw [hcall]; nofun)) (by rw [seenBy, hcall]; rfl) trivial nofun, le_rfl⟩
    · exact nomatch hs
  | fallBack read =>
    simp only [step] at hs
    split at hs
    · rename_i hcall hfree
      have hnumber : read < s.reads := h.numbered read (by rw [hcall]; nofun)
      have hseen (r : Resolve S B) (hr : r.seen = none) : r.seen = s.seenBy read := by
        rw [hr, seenBy, hcall]
        rfl
      split at hs
      · split at hs
        · obtain rfl := Option.some.inj hs
          exact ⟨h.goTo hnumber (hseen _ rfl) trivial nofun, le_rfl⟩
        · obtain rfl := Option.some.inj hs
          exact ⟨h.goTo hnumber (hseen _ rfl) trivial nofun, le_rfl⟩
      · obtain rfl := Option.some.inj hs
        exact ⟨h.goTo hnumber (hseen _ rfl) trivial nofun, le_rfl⟩
    · exact nomatch hs
  | lock read monotonic =>
    simp only [step] at hs
    split at hs
    · rename_i began seen fresh hcall hfree
      obtain rfl := Option.some.inj hs
      exact h.apply hfree hcall monotonic
    · exact nomatch hs
  | built read result monotonic =>
    simp only [step] at hs
    split at hs
    · rename_i began seen fresh hcall
      obtain rfl := Option.some.inj hs
      obtain ⟨-, hread, hle⟩ := h.building read began seen fresh hcall
      -- whether the build succeeds or fails, the outcome is of the settings that the call read
      have hpublish := h.publish (o := rebuild fresh result monotonic) (.inr hcall) (settings_rebuild ..)
      rw [← hread] at hpublish
      exact ⟨hpublish, hle⟩
    · exact nomatch hs

end Steps

/-! ## Converging -/

/-- **What was handed out is of the newest settings**: a call that called the source when the settings were what
they still are has returned the outcome of these settings. -/
def Newest (s : Reloading S B) : Prop :=
  ∀ read began seen o, s.calls read = some (.returned began seen o) → began = s.version →
    o.settings = s.settings

/-- The outcome that is current after the step is of no older settings. -/
def NeverOlder [DecidableEq S] (s : Reloading S B) (a : ReloadStep S B) : Prop :=
  ∀ s' ∈ s.step a, s.currentVersion ≤ s'.currentVersion

/-- **A reloading backend converges to the newest settings** when the settings are seen in the order of the
numbers: a call whose read began under the settings there are returns their outcome, so that each later call does
too, and no step replaces an outcome by one of older settings. -/
theorem resolve_newest [DecidableEq S] {settings : S} {s : Reloading S B}
    (h : Reaches step InOrder (init settings) s) : s.Newest ∧ ∀ a, s.InOrder a → s.NeverOlder a := by
  have hinv : s.Inv := h.invariant Inv (inv_init settings) fun _ hinv hok hstep =>
    (inv_step hinv hok hstep).1
  refine ⟨fun read began seen o hcall hbegan => ?_, fun a hok s' hs => (inv_step hinv hok hs).2⟩
  exact (hinv.fits read _ hcall).2.2 hbegan

/-- A call takes a number, and before it calls the source another one reads the settings and builds. The settings
change, and the first call reads them. -/
def overtakenSteps : List (ReloadStep String String) :=
  [.number, .number, .callSource 1, .look 1, .lock 1 0, .built 1 (.backend "old backend") 0, .change "new",
    .callSource 0, .look 0, .lock 0 0]

/-- Any step may be taken. -/
abbrev Any (_ : Reloading String String) (_ : ReloadStep String String) : Prop :=
  True

/-- **A number is no promise of an early read**: the call that was numbered first read last, and is handed the
backend of the old settings. -/
theorem resolve_newest_not_overtaken :
    ¬ ∀ (settings : String) (s : Reloading String String), Reaches step Any (init settings) s →
      s.Newest ∧ ∀ a, s.NeverOlder a := by
  intro hnewest
  obtain ⟨s, hs⟩ : ∃ s, runChecked step Any (init "old") overtakenSteps = some s :=
    Option.isSome_iff_exists.mp (by decide +kernel)
  have hold : ∀ s ∈ runChecked step Any (init "old") overtakenSteps, s.version = 1 ∧ s.settings = "new"
      ∧ ∃ o, s.calls 0 = some (.returned 1 1 o) ∧ o.settings = "old" := by
    intro s hs
    obtain rfl := Option.some.inj hs
    exact ⟨rfl, rfl, _, rfl, rfl⟩
  obtain ⟨hversion, hsettings, o, hcall, ho⟩ := hold s hs
  have hnow := (hnewest "old" s (reaches_of_runChecked .refl hs)).1 0 1 1 o hcall hversion.symm
  rw [ho, hsettings] at hnow
  exact absurd hnow (by decide)

/-- A call reads the settings and is slow; they change, the next call builds from the new ones, and a third one
finds them unchanged. -/
def slowSteps : List (ReloadStep String String) :=
  [.number, .number, .callSource 0, .look 0, .change "new", .callSource 1, .look 1, .lock 1 0,
    .built 1 (.backend "new backend") 0, .number, .callSource 2, .look 2, .lock 2 0]

/-- Both later calls return what was built from the new settings, and the slow one does not replace it. -/
theorem resolve_newest_slow :
    ∃ s : Reloading String String, ∃ o o', s.calls 0 = some (.looked 0 0 "old") ∧ s.settings = "new"
      ∧ s.calls 1 = some (.returned 1 1 o) ∧ o.settings = s.settings
      ∧ s.calls 2 = some (.returned 1 1 o') ∧ o'.settings = s.settings ∧ s.NeverOlder (.lock 0 0) := by
  obtain ⟨s, hs⟩ : ∃ s, runChecked step InOrder (init "old") slowSteps = some s :=
    Option.isSome_iff_exists.mp (by decide +kernel)
  have hcalls : ∀ s ∈ runChecked step InOrder (init "old") slowSteps, s.version = 1 ∧ s.settings = "new"
      ∧ s.calls 0 = some (.looked 0 0 "old") ∧ (∃ o, s.calls 1 = some (.returned 1 1 o))
      ∧ ∃ o, s.calls 2 = some (.returned 1 1 o) := by
    intro s hs
    obtain rfl := Option.some.inj hs
    exact ⟨rfl, rfl, rfl, ⟨_, rfl⟩, _, rfl⟩
  obtain ⟨hversion, hsettings, hslow, ⟨o, hcall⟩, o', hcall'⟩ := hcalls s hs
  obtain ⟨hnewest, hnever⟩ := resolve_newest (reaches_of_runChecked .refl hs)
  exact ⟨s, o, o', hslow, hsettings, hcall, hnewest 1 1 1 o hcall hversion.symm, hcall',
    hnewest 2 1 1 o' hcall' hversion.symm, hnever (.lock 0 0) trivial⟩

end Reloading

end Jasil.Platform
