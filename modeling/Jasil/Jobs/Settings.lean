import Jasil.Core.Limits
import Jasil.Jobs.Backoff
import Jasil.Transition.Failing

/-! # The settings of the job pipeline
`JobSettings`, the checks its construction makes, and what these make of the delays of a job.

* **`postInit`** refuses what the pipeline could not honour; **`bounds_of_postInit`** is what is left.
* **`backoffSeconds_none`**: the cap on the exponent is never felt, since the ceiling is below the delay there.
* **`backoffSeconds_some_bounds`**: jitter takes off at most half.
* **`deferSecondsOf`**: a deferral, of a number that may be infinite or none at all. -/

namespace Jasil.Jobs

/-- `MAX_JOB_BATCH_SIZE`. -/
def maxJobBatchSize : ℤ := 1000

/-- `MAX_RETENTION_DAYS`. -/
def maxRetentionDays : ℤ := 36500

/-- A number of seconds as Python has it. -/
inductive Seconds
  | finite (q : ℚ)
  | infinity (negative : Bool)
  | nan

/-- `JobSettings`, as they are given. -/
structure JobSettings where
  enabled : Bool := false
  leaseSeconds : ℤ := 300
  maxRuntimeSeconds : ℤ := 1800
  recordAttempts : Bool := true
  batchSize : ℤ := 20
  backoffBaseSeconds : ℤ := 60
  backoffMaxSeconds : ℤ := 3600
  deferMaxSeconds : ℤ := 86400
  maxDeferrals : ℤ := 100
  maxContinuations : ℤ := 10000
  pollIntervalSeconds : Seconds := .finite 5
  heartbeatIntervalSeconds : Seconds := .finite 15
  maxAttempts : ℤ := 5
  retentionDays : ℤ := 30

/-- What the `ValueError` of the construction is about. -/
inductive SettingsProblem
  /-- jobs.… must be greater than zero and at most 31536000, not … -/
  | interval (name : String) (value : Seconds)
  /-- jobs.… must be at least …, not … -/
  | minimum (name : String) (minimum value : ℤ)
  /-- jobs.… must be at most …, not … -/
  | maximum (name : String) (maximum value : ℤ)
  /-- jobs.backoff_max_seconds (…) must not be below jobs.backoff_base_seconds (…) -/
  | backoff (max base : ℤ)
  /-- jobs.lease_seconds (…) must be at least three heartbeat intervals (…) -/
  | lease (lease : ℤ) (floor : ℚ)
  /-- jobs.max_runtime_seconds (…) must not be below jobs.lease_seconds (…) -/
  | runtime (maxRuntime lease : ℤ)

/-- An interval is a number from above zero up to a year. -/
def checkInterval (name : String) : Seconds → Except SettingsProblem ℚ
  | .finite q => if 0 < q ∧ q ≤ maxJobSeconds then .ok q else .error (.interval name (.finite q))
  | value => .error (.interval name value)

/-- A value below the minimum is refused. -/
def checkMinimum (name : String) (value minimum : ℤ) : Except SettingsProblem Unit :=
  if value < minimum then .error (.minimum name minimum value) else .ok ()

/-- A value above the maximum is refused. -/
def checkMaximum (name : String) (value maximum : ℤ) : Except SettingsProblem Unit :=
  if maximum < value then .error (.maximum name maximum value) else .ok ()

/-- The largest backoff is at least the base. -/
def checkBackoff (max base : ℤ) : Except SettingsProblem Unit :=
  if max < base then .error (.backoff max base) else .ok ()

/-- Two missed beats must not expire a lease. -/
def checkLease (lease : ℤ) (heartbeat : ℚ) : Except SettingsProblem Unit :=
  if (lease : ℚ) < 3 * heartbeat then .error (.lease lease (3 * heartbeat)) else .ok ()

/-- A handler may run for at least a lease. -/
def checkRuntime (maxRuntime lease : ℤ) : Except SettingsProblem Unit :=
  if maxRuntime < lease then .error (.runtime maxRuntime lease) else .ok ()

/-- `JobSettings.__post_init__`. -/
def JobSettings.postInit (s : JobSettings) : Except SettingsProblem Unit := do
  let _ ← checkInterval "poll_interval_seconds" s.pollIntervalSeconds
  let heartbeat ← checkInterval "heartbeat_interval_seconds" s.heartbeatIntervalSeconds
  checkMinimum "batch_size" s.batchSize 1
  checkMinimum "max_attempts" s.maxAttempts 1
  checkMinimum "backoff_base_seconds" s.backoffBaseSeconds 0
  checkMinimum "defer_max_seconds" s.deferMaxSeconds 0
  checkMinimum "max_deferrals" s.maxDeferrals 0
  checkMinimum "max_continuations" s.maxContinuations 0
  checkMaximum "batch_size" s.batchSize maxJobBatchSize
  checkMaximum "lease_seconds" s.leaseSeconds maxJobSeconds
  checkMaximum "max_runtime_seconds" s.maxRuntimeSeconds maxJobSeconds
  checkMaximum "backoff_base_seconds" s.backoffBaseSeconds maxJobSeconds
  checkMaximum "backoff_max_seconds" s.backoffMaxSeconds maxJobSeconds
  checkMaximum "defer_max_seconds" s.deferMaxSeconds maxJobSeconds
  checkMaximum "retention_days" s.retentionDays maxRetentionDays
  checkBackoff s.backoffMaxSeconds s.backoffBaseSeconds
  checkLease s.leaseSeconds heartbeat
  checkRuntime s.maxRuntimeSeconds s.leaseSeconds

/-- A minimum is passed by what is at least that. -/
theorem checkMinimum_ok {name : String} {value minimum : ℤ} :
    checkMinimum name value minimum = .ok () ↔ minimum ≤ value := by
  unfold checkMinimum
  split
  · simpa using ‹value < minimum›
  · simpa using ‹¬value < minimum›

/-- A maximum is passed by what is at most that. -/
theorem checkMaximum_ok {name : String} {value maximum : ℤ} :
    checkMaximum name value maximum = .ok () ↔ value ≤ maximum := by
  unfold checkMaximum
  split
  · simpa using ‹maximum < value›
  · simpa using ‹¬maximum < value›

/-- The backoff is passed when its base is not above its maximum. -/
theorem checkBackoff_ok {max base : ℤ} : checkBackoff max base = .ok () ↔ base ≤ max := by
  unfold checkBackoff
  split
  · simpa using ‹max < base›
  · simpa using ‹¬max < base›

/-- **What the checks leave for the delays**: the first is not negative and not above the ceiling, which is at
most a year. -/
theorem JobSettings.bounds_of_postInit {s : JobSettings} (h : s.postInit = .ok ()) :
    0 ≤ s.backoffBaseSeconds ∧ s.backoffBaseSeconds ≤ s.backoffMaxSeconds ∧ s.backoffMaxSeconds ≤ maxJobSeconds
      ∧ 0 ≤ s.deferMaxSeconds := by
  rw [JobSettings.postInit] at h
  obtain ⟨_, -, h⟩ := Failing.ok_of_bind h
  obtain ⟨_, -, h⟩ := Failing.ok_of_bind h
  obtain ⟨_, -, h⟩ := Failing.ok_of_bind h
  obtain ⟨_, -, h⟩ := Failing.ok_of_bind h
  obtain ⟨_, hbase, h⟩ := Failing.ok_of_bind h
  obtain ⟨_, hdefer, h⟩ := Failing.ok_of_bind h
  obtain ⟨_, -, h⟩ := Failing.ok_of_bind h
  obtain ⟨_, -, h⟩ := Failing.ok_of_bind h
  obtain ⟨_, -, h⟩ := Failing.ok_of_bind h
  obtain ⟨_, -, h⟩ := Failing.ok_of_bind h
  obtain ⟨_, -, h⟩ := Failing.ok_of_bind h
  obtain ⟨_, -, h⟩ := Failing.ok_of_bind h
  obtain ⟨_, hmax, h⟩ := Failing.ok_of_bind h
  obtain ⟨_, -, h⟩ := Failing.ok_of_bind h
  obtain ⟨_, -, h⟩ := Failing.ok_of_bind h
  obtain ⟨_, horder, h⟩ := Failing.ok_of_bind h
  exact ⟨checkMinimum_ok.mp hbase, checkBackoff_ok.mp horder, checkMaximum_ok.mp hmax, checkMinimum_ok.mp hdefer⟩

/-- The defaults pass. -/
theorem postInit_default : JobSettings.postInit {} = .ok () := by
  have hpoll : checkInterval "poll_interval_seconds" (.finite 5) = .ok 5 := by
    rw [checkInterval, if_pos (by norm_num [maxJobSeconds])]
  have hheartbeat : checkInterval "heartbeat_interval_seconds" (.finite 15) = .ok 15 := by
    rw [checkInterval, if_pos (by norm_num [maxJobSeconds])]
  have hlease : checkLease 300 15 = .ok () := if_neg (by norm_num)
  rw [JobSettings.postInit, hpoll, hheartbeat]
  show (checkLease 300 15 >>= fun _ => checkRuntime 1800 300) = .ok ()
  rw [hlease]
  rfl

/-! ## The backoff -/

/-- The delay after `attempts` failed attempts as the schedule is meant, with no cap on the exponent. -/
def exactDelay (baseSeconds maxSeconds : ℚ) (attempts : ℤ) : ℚ :=
    min (baseSeconds * 2 ^ (attempts - 1).toNat) maxSeconds

/-- A delay is not negative. -/
theorem exactDelay_nonneg {base ceiling : ℚ} (hbase : 0 ≤ base) (hceiling : 0 ≤ ceiling) (attempts : ℤ) :
    0 ≤ exactDelay base ceiling attempts := by
  have hpow : (0 : ℚ) ≤ 2 ^ (attempts - 1).toNat := pow_nonneg (by norm_num) _
  exact le_min (mul_nonneg hbase hpow) hceiling

/-- A delay is at most the ceiling. -/
theorem exactDelay_le (base ceiling : ℚ) (attempts : ℤ) : exactDelay base ceiling attempts ≤ ceiling :=
    min_le_right _ _

/-- Later attempts wait no less. -/
theorem exactDelay_mono {base ceiling : ℚ} (hbase : 0 ≤ base) {m n : ℤ} (hmn : m ≤ n) :
    exactDelay base ceiling m ≤ exactDelay base ceiling n := by
  have hpow : (2 : ℚ) ^ (m - 1).toNat ≤ 2 ^ (n - 1).toNat := pow_le_pow_right₀ (by norm_num) (by omega)
  exact min_le_min_right _ (mul_le_mul_of_nonneg_left hpow hbase)

/-- **The cap on the exponent is never felt**: a first delay of a second has grown past the ceiling by then. -/
theorem capped_eq_exactDelay {base ceiling : ℤ} (hbase : 0 ≤ base) (hceiling : ceiling ≤ maxJobSeconds) {n : ℤ}
    (hn : 1 ≤ n) : (min (if n ≤ 1 then (base : ℚ) else base * 2 ^ (min (n - 1) maxShift).toNat) ceiling : ℚ)
      = exactDelay base ceiling n := by
  unfold exactDelay
  by_cases hone : n ≤ 1
  · have hshift : (n - 1).toNat = 0 := by omega
    rw [if_pos hone, hshift, pow_zero, mul_one]
  rw [if_neg hone]
  by_cases hcap : n - 1 ≤ maxShift
  · rw [min_eq_left hcap]
  rw [min_eq_right (not_le.mp hcap).le]
  rcases hbase.eq_or_lt with rfl | hpos
  · rw [Int.cast_zero, zero_mul, zero_mul]
  -- both delays are past the ceiling
  have hlong {k : ℕ} (hk : 30 ≤ k) : (ceiling : ℚ) ≤ base * 2 ^ k := by
    have hone : (1 : ℚ) ≤ base := by exact_mod_cast Int.add_one_le_iff.mpr hpos
    have hyear : (ceiling : ℚ) ≤ 2 ^ 30 := by
      have hle : ceiling ≤ 2 ^ 30 := hceiling.trans (by decide)
      exact_mod_cast hle
    have hpow : (2 : ℚ) ^ 30 ≤ 2 ^ k := pow_le_pow_right₀ (by norm_num) hk
    calc (ceiling : ℚ) ≤ 2 ^ k := hyear.trans hpow
      _ ≤ base * 2 ^ k := le_mul_of_one_le_left (by positivity) hone
  have hshift : 30 ≤ (n - 1).toNat := by
    have hlt : (30 : ℤ) < n - 1 := not_le.mp hcap
    omega
  rw [min_eq_right (hlong (k := maxShift.toNat) (by decide)), min_eq_right (hlong hshift)]

/-- **The delay without jitter** is the one of the schedule. -/
theorem backoffSeconds_none {base ceiling : ℤ} (hbase : 0 ≤ base) (hle : base ≤ ceiling)
    (hceiling : ceiling ≤ maxJobSeconds) {n : ℤ} (hn : 1 ≤ n) :
    backoffSeconds n base ceiling none = exactDelay base ceiling n := by
  have hnonneg : 0 ≤ exactDelay (base : ℚ) ceiling n :=
    exactDelay_nonneg (by exact_mod_cast hbase) (by exact_mod_cast hbase.trans hle) n
  unfold backoffSeconds
  dsimp only
  rw [capped_eq_exactDelay hbase hceiling hn, max_eq_right hnonneg]

/-- **Jitter takes off at most half**, and adds nothing. -/
theorem backoffSeconds_some_bounds {base ceiling : ℤ} (hbase : 0 ≤ base) (hle : base ≤ ceiling)
    (hceiling : ceiling ≤ maxJobSeconds) {n : ℤ} (hn : 1 ≤ n) {u : ℚ} (hu : 0 ≤ u) (hu' : u ≤ 1) :
    exactDelay base ceiling n / 2 ≤ backoffSeconds n base ceiling (some u)
      ∧ backoffSeconds n base ceiling (some u) ≤ exactDelay base ceiling n := by
  have hnonneg : 0 ≤ exactDelay (base : ℚ) ceiling n :=
    exactDelay_nonneg (by exact_mod_cast hbase) (by exact_mod_cast hbase.trans hle) n
  unfold backoffSeconds uniform
  dsimp only
  rw [capped_eq_exactDelay hbase hceiling hn]
  generalize exactDelay (base : ℚ) ceiling n = d at hnonneg ⊢
  have hspread : 0 ≤ d * u := mul_nonneg hnonneg hu
  have hspread' : d * u ≤ d := mul_le_of_le_one_right hnonneg hu'
  constructor
  · exact le_max_of_le_right (by linarith)
  · exact max_le hnonneg (by linarith)

/-! ## Deferrals -/

/-- `min(max(requested_seconds, 0.0), max_seconds)`, where it is a number. -/
def clampSeconds (maxSeconds : ℚ) : Seconds → Option ℚ
  | .finite q => some (min (max q 0) maxSeconds)
  | .infinity false => some maxSeconds
  | .infinity true => some (min 0 maxSeconds)
  | .nan => none

/-- `defer_seconds`, of any float. -/
def deferSecondsOf (requestedSeconds : Seconds) (maxSeconds : ℚ) (jitter : Option ℚ) : Option ℚ :=
  (clampSeconds maxSeconds requestedSeconds).map fun delay =>
    let delay :=
      match jitter with
      | some u => delay + uniform 0 (delay * (1 / 10)) u
      | none => delay
    min delay maxSeconds

/-- A delay that was asked for is between zero and the ceiling. -/
theorem clampSeconds_bounds {ceiling : ℚ} (hceiling : 0 ≤ ceiling) {requested : Seconds} (h : requested ≠ .nan) :
    ∃ delay, clampSeconds ceiling requested = some delay ∧ 0 ≤ delay := by
  cases requested with
  | finite q => exact ⟨_, rfl, le_min (le_max_right _ _) hceiling⟩
  | infinity negative =>
    cases negative with
    | false => exact ⟨_, rfl, hceiling⟩
    | true => exact ⟨_, rfl, le_min le_rfl hceiling⟩
  | nan => exact absurd rfl h

/-- **A deferral is at least now and at most the longest there may be**, whatever was asked for. -/
theorem deferSecondsOf_bounds {ceiling : ℚ} (hceiling : 0 ≤ ceiling) {requested : Seconds} (h : requested ≠ .nan)
    {jitter : Option ℚ} (hjitter : ∀ u ∈ jitter, 0 ≤ u) :
    ∃ delay, deferSecondsOf requested ceiling jitter = some delay ∧ 0 ≤ delay ∧ delay ≤ ceiling := by
  obtain ⟨delay, hclamp, hnonneg⟩ := clampSeconds_bounds hceiling h
  unfold deferSecondsOf
  rw [hclamp]
  refine ⟨_, rfl, le_min ?_ hceiling, min_le_right _ _⟩
  cases jitter with
  | none => exact hnonneg
  | some u =>
    have hspread : 0 ≤ delay * u := mul_nonneg hnonneg (hjitter u rfl)
    unfold uniform
    dsimp only
    linarith

/-! ## The delays of a job -/

/-- **The delays that accepted settings make are exact and bounded**: the backoff follows its schedule, jitter
keeps it between half of that and all of it, later attempts wait no less, and a deferral stays within its
ceiling. -/
theorem delays_bounded {s : JobSettings} (h : s.postInit = .ok ()) {n : ℤ} (hn : 1 ≤ n) {u : ℚ} (hu : 0 ≤ u)
    (hu' : u ≤ 1) :
    let base : ℚ := s.backoffBaseSeconds
    let ceiling : ℚ := s.backoffMaxSeconds
    let whole := min (base * 2 ^ (n - 1).toNat) ceiling
    (backoffSeconds n base ceiling none = whole
      ∧ whole / 2 ≤ backoffSeconds n base ceiling (some u) ∧ backoffSeconds n base ceiling (some u) ≤ whole)
    ∧ (0 ≤ whole ∧ whole ≤ ceiling)
    ∧ (∀ m, 1 ≤ m → m ≤ n → backoffSeconds m base ceiling none ≤ whole)
    ∧ ∀ requested, requested ≠ .nan → ∀ jitter ∈ [none, some u],
        ∃ delay, deferSecondsOf requested s.deferMaxSeconds jitter = some delay
          ∧ 0 ≤ delay ∧ delay ≤ s.deferMaxSeconds := by
  obtain ⟨hbase, hle, hceiling, hdefer⟩ := JobSettings.bounds_of_postInit h
  have hbase' : (0 : ℚ) ≤ s.backoffBaseSeconds := by exact_mod_cast hbase
  have hceiling' : (0 : ℚ) ≤ s.backoffMaxSeconds := by exact_mod_cast hbase.trans hle
  obtain ⟨hhalf, hwhole⟩ := backoffSeconds_some_bounds hbase hle hceiling hn hu hu'
  refine ⟨⟨backoffSeconds_none hbase hle hceiling hn, hhalf, hwhole⟩,
    ⟨exactDelay_nonneg hbase' hceiling' n, exactDelay_le _ _ n⟩, fun m hm hmn => ?_,
      fun requested hreq jitter hj => ?_⟩
  · rw [backoffSeconds_none hbase hle hceiling hm]
    exact exactDelay_mono hbase' hmn
  · refine deferSecondsOf_bounds (by exact_mod_cast hdefer) hreq ?_
    rcases List.mem_pair.mp hj with rfl | rfl
    · rintro _ ⟨⟩
    · rintro _ ⟨⟩
      exact hu

/-- With the settings a host gets that sets none, and the highest draw. -/
theorem delays_bounded_default :
    backoffSeconds 40 60 3600 none = min (60 * 2 ^ 39) 3600 := by
  have hdelays := delays_bounded postInit_default (n := 40) (by decide) (u := 1) (by norm_num) le_rfl
  simpa using hdelays.1.1

end Jasil.Jobs
