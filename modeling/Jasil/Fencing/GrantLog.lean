import Mathlib.Data.List.Sort
import Mathlib.Data.List.Range
import Mathlib.Tactic.Linarith

/-! # Fencing tokens that can be given back
A resource is granted to one holder after another. Each grant carries a *token*, the value a
counter had when the grant was made, and a holder proves that its grant is the present one by
presenting the token. The counter goes up by one with each grant, goes *down* by one when the newest
grant is revoked, and restarts at `0` with each new *epoch*. So a token does not identify a grant:
the same number is handed out again after a revocation and in every epoch.

* **`GrantLog`**: every grant ever made, in order, with its epoch and whether it was revoked.
* **`GrantLog.standing`**: the grants of the present epoch that were not revoked.
* **`GrantLog.Tracks log n`**: the counter `n` fits the log. The standing grants carry exactly the
  tokens `1, …, n`, in the order they were made.

From `Tracks`: a token does identify a *standing* grant (`Tracks.eq_of_token`), the counter is the
number of standing grants (`Tracks.length_standing`), and a standing grant has a later standing
grant exactly when the counter has passed its token (`Tracks.exists_later_iff`). -/

namespace Jasil

variable {α : Type*}

/-- The tokens `1, …, n`, none when `n ≤ 0`. -/
def tokensUpTo (n : ℤ) : List ℤ := (List.range n.toNat).map fun i : ℕ => (i : ℤ) + 1

/-- No token. -/
@[simp] theorem tokensUpTo_zero : tokensUpTo 0 = [] := rfl

/-- One token more. -/
theorem tokensUpTo_succ {n : ℤ} (h : 0 ≤ n) : tokensUpTo (n + 1) = tokensUpTo n ++ [n + 1] := by
  have hn : (n + 1).toNat = n.toNat + 1 := by omega
  have hc : ((n.toNat : ℕ) : ℤ) = n := Int.toNat_of_nonneg h
  rw [tokensUpTo, tokensUpTo, hn, List.range_succ, List.map_append, List.map_singleton, hc]

/-- The tokens are the numbers from one on. -/
theorem mem_tokensUpTo {n t : ℤ} : t ∈ tokensUpTo n ↔ 1 ≤ t ∧ t ≤ n := by
  simp only [tokensUpTo, List.mem_map, List.mem_range]
  constructor
  · rintro ⟨i, hi, rfl⟩
    omega
  · rintro ⟨h1, hn⟩
    exact ⟨(t - 1).toNat, by omega, by omega⟩

/-- There are as many as the last one says. -/
@[simp] theorem length_tokensUpTo (n : ℤ) : (tokensUpTo n).length = n.toNat := by
  simp [tokensUpTo]

/-- They are in order. -/
theorem pairwise_tokensUpTo (n : ℤ) : (tokensUpTo n).Pairwise (· < ·) := by
  refine List.pairwise_map.mpr (List.Pairwise.imp ?_ List.pairwise_lt_range)
  intro i j hij
  omega

/-- One grant: its place among all grants, the epoch and the token it was made with, whether it was
revoked since, and what its holder is. -/
structure Grant (α : Type*) where
  /-- How many grants were made before this one. -/
  serial : ℕ
  /-- The epoch the grant was made in. -/
  epoch : ℕ
  /-- The value of the counter just after the grant. -/
  token : ℤ
  /-- Whether the grant was given back. -/
  revoked : Bool
  /-- Who holds the grant. -/
  holder : α
  deriving DecidableEq, Repr

/-- What never changes of a grant. -/
def Grant.ident (g : Grant α) : ℕ × ℕ × ℤ × α := (g.serial, g.epoch, g.token, g.holder)

/-- Every grant made so far, oldest first, and the present epoch. -/
structure GrantLog (α : Type*) where
  grants : List (Grant α)
  epoch : ℕ
  deriving Repr

namespace GrantLog

/-- The log before any grant. -/
def empty : GrantLog α := ⟨[], 0⟩

/-- Record a new grant carrying `token`. -/
def issue (log : GrantLog α) (token : ℤ) (a : α) : GrantLog α :=
  { log with grants := log.grants ++ [⟨log.grants.length, log.epoch, token, false, a⟩] }

/-- Record that grant number `k` was given back. -/
def revoke (log : GrantLog α) (k : ℕ) : GrantLog α :=
  { log with
    grants := log.grants.map fun g => if g.serial = k then { g with revoked := true } else g }

/-- Start a new epoch. -/
def advance (log : GrantLog α) : GrantLog α := { log with epoch := log.epoch + 1 }

/-- Whether a grant is of the present epoch and was not given back. -/
def Standing (log : GrantLog α) (g : Grant α) : Prop := g.epoch = log.epoch ∧ g.revoked = false

/-- The grants of the present epoch that were not given back, oldest first. -/
def standing (log : GrantLog α) : List (Grant α) :=
  log.grants.filter fun g => g.epoch == log.epoch && !g.revoked

/-- The grants that were not given back, of whatever epoch. -/
def unrevoked (log : GrantLog α) : List (Grant α) := log.grants.filter fun g => !g.revoked

/-- Some grant after `g`, of whatever epoch, was not given back. -/
def Regranted (log : GrantLog α) (g : Grant α) : Prop :=
  ∃ g' ∈ log.grants, g.serial < g'.serial ∧ g'.revoked = false

instance (log : GrantLog α) (g : Grant α) : Decidable (log.Regranted g) :=
  inferInstanceAs (Decidable (∃ _ ∈ _, _))

/-- What stands is neither revoked nor of an earlier epoch. -/
theorem mem_standing {log : GrantLog α} {g : Grant α} :
    g ∈ log.standing ↔ g ∈ log.grants ∧ log.Standing g := by
  simp [standing, Standing]

/-- An epoch that begins adds no grant. -/
@[simp] theorem grants_advance (log : GrantLog α) : log.advance.grants = log.grants := rfl

/-- Epochs are counted. -/
@[simp] theorem epoch_advance (log : GrantLog α) : log.advance.epoch = log.epoch + 1 := rfl

/-- A grant begins no epoch. -/
@[simp] theorem epoch_issue (log : GrantLog α) (t : ℤ) (a : α) :
    (log.issue t a).epoch = log.epoch := rfl

/-- Nor does a revocation. -/
@[simp] theorem epoch_revoke (log : GrantLog α) (k : ℕ) : (log.revoke k).epoch = log.epoch := rfl

/-- A revocation removes no grant. -/
@[simp] theorem length_revoke (log : GrantLog α) (k : ℕ) :
    (log.revoke k).grants.length = log.grants.length := by
  simp [revoke]

/-- A grant that is issued is the last one. -/
theorem mem_issue {log : GrantLog α} {t : ℤ} {a : α} {g : Grant α} :
    g ∈ (log.issue t a).grants ↔
      g ∈ log.grants ∨ g = ⟨log.grants.length, log.epoch, t, false, a⟩ := by
  simp [issue]

/-- A revocation changes the grant of that number only. -/
theorem mem_revoke {log : GrantLog α} {k : ℕ} {g : Grant α} :
    g ∈ (log.revoke k).grants ↔
      ∃ g₀ ∈ log.grants, (if g₀.serial = k then { g₀ with revoked := true } else g₀) = g := by
  simp [revoke]

/-- A revocation changes nothing of a grant but that it is revoked. -/
theorem mem_revoke_same {log : GrantLog α} {k : ℕ} {g : Grant α} (hg : g ∈ (log.revoke k).grants) :
    ∃ g₀ ∈ log.grants, g.serial = g₀.serial ∧ g.epoch = g₀.epoch ∧ g.token = g₀.token ∧
      (g.revoked = false → g₀.revoked = false) ∧ g.holder = g₀.holder := by
  obtain ⟨g₀, hg₀, rfl⟩ := mem_revoke.mp hg
  refine ⟨g₀, hg₀, ?_⟩
  split
  · exact ⟨rfl, rfl, rfl, nofun, rfl⟩
  · exact ⟨rfl, rfl, rfl, id, rfl⟩

/-- A revocation leaves what a grant is identified by. -/
@[simp] theorem map_ident_revoke (log : GrantLog α) (k : ℕ) :
    (log.revoke k).grants.map Grant.ident = log.grants.map Grant.ident := by
  rw [revoke, List.map_map]
  refine List.map_congr_left fun g _ => ?_
  simp only [Function.comp_apply]
  split <;> rfl

/-- Logs that show the same grants, revoked or not, have each other's grants. -/
theorem exists_of_map_ident {log log' : GrantLog α}
    (h : log'.grants.map Grant.ident = log.grants.map Grant.ident) {g : Grant α}
    (hg : g ∈ log.grants) : ∃ g' ∈ log'.grants, g'.ident = g.ident := by
  have hm : g.ident ∈ log'.grants.map Grant.ident := by
    rw [h]
    exact List.mem_map_of_mem hg
  exact List.mem_map.mp hm

/-- The grant made last, if any was. -/
def last? (log : GrantLog α) : Option (Grant α) := log.grants.getLast?

/-- What was issued is the last grant. -/
@[simp] theorem last?_issue (log : GrantLog α) (t : ℤ) (a : α) :
    (log.issue t a).last? = some ⟨log.grants.length, log.epoch, t, false, a⟩ := by
  simp [last?, issue]

/-- The last grant is one of the log's. -/
theorem last?_mem {log : GrantLog α} {g : Grant α} (h : log.last? = some g) : g ∈ log.grants :=
  List.mem_of_getLast? h

/-! ## The serials -/

/-- The grants are numbered in order. -/
def Numbered (log : GrantLog α) : Prop :=
  log.grants.map Grant.serial = List.range log.grants.length

/-- An empty log is numbered. -/
theorem numbered_empty : Numbered (empty : GrantLog α) := rfl

/-- A grant gets the next number. -/
theorem Numbered.issue {log : GrantLog α} (h : log.Numbered) (t : ℤ) (a : α) :
    (log.issue t a).Numbered := by
  rw [Numbered] at h ⊢
  simp [GrantLog.issue, h, List.range_succ]

/-- A revocation leaves the numbers. -/
theorem Numbered.revoke {log : GrantLog α} (h : log.Numbered) (k : ℕ) : (log.revoke k).Numbered := by
  rw [Numbered] at h ⊢
  rw [length_revoke, ← h, GrantLog.revoke, List.map_map]
  refine List.map_congr_left fun g _ => ?_
  simp only [Function.comp_apply]
  split <;> rfl

/-- So does an epoch that begins. -/
theorem Numbered.advance {log : GrantLog α} (h : log.Numbered) : log.advance.Numbered := h

section Numbered

variable {log : GrantLog α} (h : log.Numbered)
include h

/-- The numbers increase. -/
theorem Numbered.pairwise : log.grants.Pairwise fun g g' => g.serial < g'.serial := by
  have hr : (log.grants.map Grant.serial).Pairwise (· < ·) := by
    rw [h]
    exact List.pairwise_lt_range
  exact List.pairwise_map.mp hr

/-- A number is below the length of the log. -/
theorem Numbered.serial_lt {g : Grant α} (hg : g ∈ log.grants) : g.serial < log.grants.length := by
  have hm : g.serial ∈ log.grants.map Grant.serial := List.mem_map_of_mem hg
  rw [h] at hm
  exact List.mem_range.mp hm

/-- A serial identifies a grant. -/
theorem Numbered.eq_of_serial {g g' : Grant α} (hg : g ∈ log.grants) (hg' : g' ∈ log.grants)
    (hs : g.serial = g'.serial) : g = g' := by
  have hnd : (log.grants.map Grant.serial).Nodup := by
    rw [h]
    exact List.nodup_range
  exact List.inj_on_of_nodup_map hnd hg hg' hs

/-- The last grant is the one with the greatest serial. -/
theorem Numbered.serial_le_last {g l : Grant α} (hl : log.last? = some l) (hg : g ∈ log.grants) :
    g.serial ≤ l.serial := by
  obtain ⟨gs, hgs⟩ := List.getLast?_eq_some_iff.mp hl
  have hp := h.pairwise
  rw [hgs, List.pairwise_append] at hp
  rw [hgs, List.mem_append, List.mem_singleton] at hg
  rcases hg with hg | rfl
  · exact (hp.2.2 g hg l (List.mem_singleton_self l)).le
  · exact le_rfl

/-- The last grant is numbered one less than there are grants. -/
theorem Numbered.serial_last {l : Grant α} (hl : log.last? = some l) :
    l.serial + 1 = log.grants.length := by
  have hlen : log.grants.length ≠ 0 := by
    intro h0
    rw [last?, List.length_eq_zero_iff.mp h0] at hl
    exact nomatch hl
  obtain ⟨n, hn⟩ := Nat.exists_eq_succ_of_ne_zero hlen
  have hs := congrArg List.getLast? h
  rw [List.getLast?_map, ← last?, hl, hn, List.getLast?_range] at hs
  simp only [Option.map_some, Nat.succ_ne_zero, if_false, Option.some.injEq] at hs
  omega

end Numbered

/-! ## The counter -/

/-- **The counter `n` fits the log**: the grants are numbered, epochs only grow, and the standing
grants carry exactly the tokens `1, …, n` in the order they were made. Within one epoch, present or
past, a grant that was not given back has a smaller token than every later one. -/
structure Tracks (log : GrantLog α) (n : ℤ) : Prop where
  numbered : log.Numbered
  epochs : ∀ g ∈ log.grants, g.epoch ≤ log.epoch
  epoch_mono : ∀ g ∈ log.grants, ∀ g' ∈ log.grants, g.serial < g'.serial → g.epoch ≤ g'.epoch
  nonneg : 0 ≤ n
  tokens : log.standing.map Grant.token = tokensUpTo n
  token_pos : ∀ g ∈ log.grants, 1 ≤ g.token
  token_lt : ∀ g ∈ log.grants, ∀ g' ∈ log.grants, g.revoked = false → g.epoch = g'.epoch →
    g.serial < g'.serial → g.token < g'.token

/-- An empty log tracks the token zero. -/
theorem tracks_empty : Tracks (empty : GrantLog α) 0 where
  numbered := numbered_empty
  epochs := nofun
  epoch_mono := nofun
  nonneg := le_rfl
  tokens := rfl
  token_pos := nofun
  token_lt := nofun

/-- The tokens that stand are between one and the last. -/
theorem token_le_of_tokens {log : GrantLog α} {n : ℤ}
    (h : log.standing.map Grant.token = tokensUpTo n) {g : Grant α} (hg : g ∈ log.standing) :
    1 ≤ g.token ∧ g.token ≤ n := by
  rw [← mem_tokensUpTo, ← h]
  exact List.mem_map_of_mem hg

/-- A grant that is issued stands. -/
theorem standing_issue (log : GrantLog α) (t : ℤ) (a : α) :
    (log.issue t a).standing = log.standing ++ [⟨log.grants.length, log.epoch, t, false, a⟩] := by
  simp [standing, issue]

/-- A revocation takes the one grant out of the standing ones and leaves the others as they are. -/
theorem standing_revoke (log : GrantLog α) (k : ℕ) :
    (log.revoke k).standing = log.standing.filter fun g => g.serial != k := by
  simp only [standing, revoke]
  induction log.grants with
  | nil => rfl
  | cons g gs ih =>
    rw [List.map_cons, List.filter_cons, List.filter_cons, ih]
    cases hstand : (g.epoch == log.epoch && !g.revoked) with
    | true => by_cases hs : g.serial = k <;> simp [hs, hstand]
    | false => by_cases hs : g.serial = k <;> simp [hs, hstand]

/-- A grant with the next token keeps the counter and the log in step. -/
theorem Tracks.issue {log : GrantLog α} {n : ℤ} (h : log.Tracks n) (a : α) :
    (log.issue (n + 1) a).Tracks (n + 1) where
  numbered := h.numbered.issue _ _
  epochs := by
    intro g hg
    rcases mem_issue.mp hg with hg | rfl
    · exact h.epochs g hg
    · exact le_rfl
  epoch_mono := by
    intro g hg g' hg' hlt
    rcases mem_issue.mp hg with hg | rfl
    · rcases mem_issue.mp hg' with hg' | rfl
      · exact h.epoch_mono g hg g' hg' hlt
      · exact h.epochs g hg
    · rcases mem_issue.mp hg' with hg' | rfl
      · -- no grant is later than the new one
        exact absurd (h.numbered.serial_lt hg') (by simpa using hlt.le)
      · exact le_rfl
  nonneg := by have := h.nonneg; omega
  token_pos := by
    intro g hg
    rcases mem_issue.mp hg with hg | rfl
    · exact h.token_pos g hg
    · have := h.nonneg
      simp only
      omega
  tokens := by
    rw [standing_issue, List.map_append, h.tokens, tokensUpTo_succ h.nonneg]
    rfl
  token_lt := by
    intro g hg g' hg' hrev hep hlt
    rcases mem_issue.mp hg with hg | rfl
    · rcases mem_issue.mp hg' with hg' | rfl
      · exact h.token_lt g hg g' hg' hrev hep hlt
      · have := (token_le_of_tokens h.tokens (mem_standing.mpr ⟨hg, hep, hrev⟩)).2
        simp only
        omega
    · rcases mem_issue.mp hg' with hg' | rfl
      · exact absurd (h.numbered.serial_lt hg') (by simpa using hlt.le)
      · exact absurd hlt (lt_irrefl _)

/-- A new epoch starts the counter again. -/
theorem Tracks.advance {log : GrantLog α} {n : ℤ} (h : log.Tracks n) : log.advance.Tracks 0 where
  numbered := h.numbered.advance
  epochs := fun g hg => Nat.le_succ_of_le (h.epochs g hg)
  epoch_mono := h.epoch_mono
  nonneg := le_rfl
  token_pos := h.token_pos
  token_lt := h.token_lt
  tokens := by
    have hnil : log.advance.standing = [] := by
      refine List.filter_eq_nil_iff.mpr fun g hg => ?_
      have hne : g.epoch ≠ log.epoch + 1 := by
        have := h.epochs g hg
        omega
      simp [hne]
    rw [hnil]
    rfl

section Tracks

variable {log : GrantLog α} {n : ℤ} (h : log.Tracks n)
include h

/-- As many grants stand as the token says. -/
theorem Tracks.length_standing : (log.standing.length : ℤ) = n := by
  have hl := congrArg List.length h.tokens
  rw [List.length_map, length_tokensUpTo] at hl
  rw [hl, Int.toNat_of_nonneg h.nonneg]

/-- In the first epoch the counter is the number of grants that were not given back. -/
theorem Tracks.length_unrevoked (he : log.epoch = 0) : (log.unrevoked.length : ℤ) = n := by
  have hsame : log.standing = log.unrevoked := by
    refine List.filter_congr fun g hg => ?_
    have := h.epochs g hg
    have h0 : g.epoch = log.epoch := by omega
    simp [h0]
  rw [← hsame]
  exact h.length_standing

/-- Along the standing grants the serial and the token both grow. -/
theorem Tracks.pairwise :
    log.standing.Pairwise fun g g' => g.serial < g'.serial ∧ g.token < g'.token := by
  have hs : log.standing.Pairwise fun g g' => g.serial < g'.serial :=
    h.numbered.pairwise.filter _
  have ht : (log.standing.map Grant.token).Pairwise (· < ·) := by
    rw [h.tokens]
    exact pairwise_tokensUpTo n
  exact hs.and (List.pairwise_map.mp ht)

/-- Two standing grants are the same, or one is before the other in serial and in token. -/
theorem Tracks.trichotomy {g g' : Grant α} (hg : g ∈ log.standing) (hg' : g' ∈ log.standing) :
    g = g' ∨ (g.serial < g'.serial ∧ g.token < g'.token) ∨
      (g'.serial < g.serial ∧ g'.token < g.token) := by
  obtain ⟨i, hi, rfl⟩ := List.getElem_of_mem hg
  obtain ⟨j, hj, rfl⟩ := List.getElem_of_mem hg'
  have hp := List.pairwise_iff_getElem.mp h.pairwise
  rcases Nat.lt_trichotomy i j with hij | rfl | hij
  · exact Or.inr (Or.inl (hp i j hi hj hij))
  · exact Or.inl rfl
  · exact Or.inr (Or.inr (hp j i hj hi hij))

/-- **A token identifies a standing grant.** -/
theorem Tracks.eq_of_token {g g' : Grant α} (hg : g ∈ log.standing) (hg' : g' ∈ log.standing)
    (ht : g.token = g'.token) : g = g' := by
  rcases h.trichotomy hg hg' with he | ⟨-, hlt⟩ | ⟨-, hlt⟩
  · exact he
  · omega
  · omega

/-- A token that stands is between one and the last. -/
theorem Tracks.token_mem {g : Grant α} (hg : g ∈ log.standing) : 1 ≤ g.token ∧ g.token ≤ n :=
  token_le_of_tokens h.tokens hg

/-- The counter's value is a standing grant's token, unless the counter is at `0`. -/
theorem Tracks.exists_token {t : ℤ} (h1 : 1 ≤ t) (hn : t ≤ n) : ∃ g ∈ log.standing, g.token = t := by
  have hm : t ∈ log.standing.map Grant.token := by
    rw [h.tokens]
    exact mem_tokensUpTo.mpr ⟨h1, hn⟩
  exact List.mem_map.mp hm

/-- **A standing grant has a later standing grant exactly when the counter has passed its token.** -/
theorem Tracks.exists_later_iff {g : Grant α} (hg : g ∈ log.standing) :
    (∃ g' ∈ log.standing, g.serial < g'.serial) ↔ g.token < n := by
  constructor
  · rintro ⟨g', hg', hlt⟩
    rcases h.trichotomy hg hg' with rfl | ⟨-, ht⟩ | ⟨hs, -⟩
    · omega
    · exact lt_of_lt_of_le ht (h.token_mem hg').2
    · omega
  · intro hlt
    obtain ⟨g', hg', ht⟩ := h.exists_token (t := n) (by have := (h.token_mem hg).1; omega) le_rfl
    refine ⟨g', hg', ?_⟩
    rcases h.trichotomy hg hg' with rfl | ⟨hs, -⟩ | ⟨-, htl⟩
    · omega
    · exact hs
    · omega

/-- The same with grants of later epochs counted too: there are none after a standing grant's. -/
theorem Tracks.regranted_iff {g : Grant α} (hg : g ∈ log.standing) :
    log.Regranted g ↔ g.token < n := by
  rw [← h.exists_later_iff hg]
  obtain ⟨hmem, hep, -⟩ := mem_standing.mp hg
  constructor
  · rintro ⟨g', hg', hlt, hrev⟩
    have hge : g.epoch ≤ g'.epoch := h.epoch_mono g hmem g' hg' hlt
    have hle : g'.epoch ≤ log.epoch := h.epochs g' hg'
    exact ⟨g', mem_standing.mpr ⟨hg', by omega, hrev⟩, hlt⟩
  · rintro ⟨g', hg', hlt⟩
    obtain ⟨hmem', -, hrev⟩ := mem_standing.mp hg'
    exact ⟨g', hmem', hlt, hrev⟩

/-- A counter that has passed the token of a grant shows a later one, in whatever epoch it is. -/
theorem Tracks.regranted_of_lt {g : Grant α} (hg : g ∈ log.grants) (hrev : g.revoked = false)
    (hlt : g.token < n) : log.Regranted g := by
  by_cases hep : g.epoch = log.epoch
  · exact (h.regranted_iff (mem_standing.mpr ⟨hg, hep, hrev⟩)).mpr hlt
  · -- the grant is of an earlier epoch, so any grant of the present one is later
    have hpos := h.token_pos g hg
    obtain ⟨g', hg', -⟩ := h.exists_token (t := 1) le_rfl (by omega)
    obtain ⟨hmem', hep', hrev'⟩ := mem_standing.mp hg'
    refine ⟨g', hmem', ?_, hrev'⟩
    have hle := h.epochs g hg
    rcases Nat.lt_trichotomy g.serial g'.serial with hser | heq | hser
    · exact hser
    · obtain rfl := h.numbered.eq_of_serial hg hmem' heq
      exact absurd hep' hep
    · have := h.epoch_mono g' hmem' g hg hser
      omega

/-- The standing grant with the greatest token is the last of them. -/
theorem Tracks.standing_eq_append {g : Grant α} (hg : g ∈ log.standing) (ht : g.token = n) :
    ∃ gs, log.standing = gs ++ [g] ∧ gs.map Grant.token = tokensUpTo (n - 1) := by
  have hpos : 0 ≤ n - 1 := by
    have := (h.token_mem hg).1
    omega
  have htok : log.standing.map Grant.token = tokensUpTo (n - 1) ++ [n] := by
    rw [h.tokens, ← Int.sub_add_cancel n 1, tokensUpTo_succ hpos]
    simp
  obtain ⟨gs, ls, hsplit, hgs, hls⟩ := List.map_eq_append_iff.mp htok
  obtain ⟨g', rfl, hg'⟩ := List.map_eq_singleton_iff.mp hls
  have hmem : g' ∈ log.standing := by simp [hsplit]
  obtain rfl : g' = g := h.eq_of_token hmem hg (hg'.trans ht.symm)
  exact ⟨gs, hsplit, hgs⟩

/-- **Revoking the newest standing grant turns the counter back by one.** -/
theorem Tracks.revoke {g : Grant α} (hg : g ∈ log.standing) (ht : g.token = n) :
    (log.revoke g.serial).Tracks (n - 1) where
  numbered := h.numbered.revoke _
  epochs := by
    intro g' hg'
    obtain ⟨g₀, hg₀, hr⟩ := mem_revoke_same hg'
    rw [hr.2.1]
    exact h.epochs g₀ hg₀
  epoch_mono := by
    intro g₁ hg₁ g₂ hg₂ hlt
    obtain ⟨g₁', hg₁', hs₁, he₁, -⟩ := mem_revoke_same hg₁
    obtain ⟨g₂', hg₂', hs₂, he₂, -⟩ := mem_revoke_same hg₂
    rw [he₁, he₂]
    exact h.epoch_mono g₁' hg₁' g₂' hg₂' (by omega)
  token_pos := by
    intro g' hg'
    obtain ⟨g₀, hg₀, -, -, htok, -⟩ := mem_revoke_same hg'
    rw [htok]
    exact h.token_pos g₀ hg₀
  token_lt := by
    intro g₁ hg₁ g₂ hg₂ hrev hep hlt
    obtain ⟨g₁', hg₁', hs₁, he₁, ht₁, hr₁, -⟩ := mem_revoke_same hg₁
    obtain ⟨g₂', hg₂', hs₂, he₂, ht₂, -⟩ := mem_revoke_same hg₂
    rw [ht₁, ht₂]
    exact h.token_lt g₁' hg₁' g₂' hg₂' (hr₁ hrev) (by omega) (by omega)
  nonneg := by
    have := (h.token_mem hg).1
    omega
  tokens := by
    -- the newest standing grant is the last one, and the tokens before it stay
    obtain ⟨gs, hsplit, hgs⟩ := h.standing_eq_append hg ht
    have hlt : ∀ g' ∈ gs, g'.serial < g.serial := by
      intro g' hg'
      have hp := h.pairwise
      rw [hsplit, List.pairwise_append] at hp
      exact (hp.2.2 g' hg' g (List.mem_singleton_self g)).1
    rw [standing_revoke, hsplit, List.filter_append, List.filter_eq_self.mpr, ← hgs]
    · simp
    · intro g' hg'
      have := hlt g' hg'
      simp only [bne_iff_ne, ne_eq]
      omega

end Tracks

end GrantLog

end Jasil
