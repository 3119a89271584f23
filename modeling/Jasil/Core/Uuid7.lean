import Jasil.Text.FixedHex

/-! # Time-ordered UUIDs
`uuid7`: a millisecond timestamp, a counter within the millisecond, and random bits. The last timestamp and
counter are kept under a lock.

* **`Uuid7State.next`, `uuid7`**: one call.
* **`rank_lt_next`**: timestamp and counter together increase with every call.
* **`uuid7_increasing`**: so do the UUIDs of a process, as numbers and as text, whatever the clock reads. -/

namespace Jasil

/-- What a call reads: the clock, in nanoseconds, and random bytes. -/
structure Readings where
  timeNs : ℤ
  random2 : UInt16
  random8 : UInt64
  deriving DecidableEq

/-- `_last_milliseconds` and `_last_counter`. -/
structure Uuid7State where
  lastMilliseconds : ℕ
  lastCounter : ℕ
  deriving DecidableEq

/-- `_COUNTER_BITS`. -/
def counterBits : ℕ := 12

namespace Uuid7State

/-- The state of a process that has not minted yet. -/
def init : Uuid7State := ⟨0, 0⟩

/-- The timestamp and the counter of the next UUID. -/
def next (s : Uuid7State) (r : Readings) : Uuid7State :=
  let milliseconds := r.timeNs / 1000000
  if milliseconds > s.lastMilliseconds then ⟨milliseconds.toNat, r.random2.toNat &&& (2 ^ counterBits / 2 - 1)⟩
  else
    -- the clock stands still or went back
    let counter := s.lastCounter + 1
    if counter ≥ 2 ^ counterBits then ⟨s.lastMilliseconds + 1, 0⟩ else ⟨s.lastMilliseconds, counter⟩

/-- The 128 bits of a UUID. -/
def value (s : Uuid7State) (random8 : UInt64) : ℕ :=
  (s.lastMilliseconds &&& (2 ^ 48 - 1)) <<< 80 ||| 0x7 <<< 76 ||| s.lastCounter <<< 64 ||| 0b10 <<< 62
    ||| (random8.toNat &&& (2 ^ 62 - 1))

end Uuid7State

/-- `uuid7`. -/
def uuid7 (s : Uuid7State) (r : Readings) : ℕ × Uuid7State :=
  let s := s.next r
  (s.value r.random8, s)

/-- The UUIDs that calls mint one after the other. -/
def minted (s : Uuid7State) : List Readings → List ℕ
  | [] => []
  | r :: calls => (uuid7 s r).1 :: minted (uuid7 s r).2 calls

/-- The state after calls. -/
def afterCalls (s : Uuid7State) (calls : List Readings) : Uuid7State := calls.foldl (fun s r => (uuid7 s r).2) s

/-! ## The fields of a UUID -/

/-- `UUID.version`. -/
def version (uuid : ℕ) : ℕ := uuid >>> 76 &&& 0xf

/-- The variant bits: `0b10` for `RFC_4122`. -/
def variant (uuid : ℕ) : ℕ := uuid >>> 62 &&& 0b11

/-- The milliseconds in the upper 48 bits. -/
def timestamp (uuid : ℕ) : ℕ := uuid >>> 80

/-- `str(uuid)`. -/
def uuidText (uuid : ℕ) : List Char :=
  let hex := fixedHex 32 uuid
  hex.take 8 ++ '-' :: ((hex.drop 8).take 4 ++ '-' :: ((hex.drop 12).take 4 ++ '-' :: ((hex.drop 16).take 4
    ++ '-' :: hex.drop 20)))

/-- **The texts come in the order of the numbers.** -/
theorem uuidText_lt {u v : ℕ} (h : u < v) (hv : v < 2 ^ 128) : uuidText u < uuidText v := by
  have hlt : fixedHex 32 u < fixedHex 32 v := fixedHex_lt h (hv.trans_eq (by norm_num))
  have hu := length_fixedHex 32 u
  have hv := length_fixedHex 32 v
  have hsplit {l : List Char} : l = l.take 8 ++ ((l.drop 8).take 4 ++ ((l.drop 12).take 4
      ++ ((l.drop 16).take 4 ++ l.drop 20))) := by
    have h16 : (l.drop 16).take 4 ++ l.drop 20 = l.drop 16 := by
      rw [← List.drop_drop (i := 4) (j := 16), List.take_append_drop]
    have h12 : (l.drop 12).take 4 ++ l.drop 16 = l.drop 12 := by
      rw [← List.drop_drop (i := 4) (j := 12), List.take_append_drop]
    have h8 : (l.drop 8).take 4 ++ l.drop 12 = l.drop 8 := by
      rw [← List.drop_drop (i := 4) (j := 8), List.take_append_drop]
    rw [h16, h12, h8, List.take_append_drop]
  have hblock (i n : ℕ) : ((fixedHex 32 u).drop i |>.take n).length
      = ((fixedHex 32 v).drop i |>.take n).length := by
    rw [List.length_take, List.length_take, List.length_drop, List.length_drop, hu, hv]
  have hhead : ((fixedHex 32 u).take 8).length = ((fixedHex 32 v).take 8).length := hblock 0 8
  rw [hsplit (l := fixedHex 32 u), hsplit (l := fixedHex 32 v), append_lt_append hhead,
    append_lt_append (hblock 8 4), append_lt_append (hblock 12 4), append_lt_append (hblock 16 4)] at hlt
  -- the same dashes stand between the blocks
  unfold uuidText
  simp only [append_lt_append hhead, append_lt_append (hblock 8 4), append_lt_append (hblock 12 4),
    append_lt_append (hblock 16 4), List.cons_lt_cons_iff, Char.lt_irrefl, false_or, true_and]
  exact hlt

namespace Uuid7State

variable {s s' : Uuid7State} {r : Readings}

/-- Timestamp and counter fit into their fields. -/
structure Fits (s : Uuid7State) : Prop where
  milliseconds : s.lastMilliseconds < 2 ^ 48
  counter : s.lastCounter < 2 ^ counterBits

/-- The parts of a UUID. -/
theorem value_eq (h : s.Fits) (random8 : UInt64) :
    s.value random8 = s.lastMilliseconds * 2 ^ 80 + 7 * 2 ^ 76 + s.lastCounter * 2 ^ 64 + 2 * 2 ^ 62
      + random8.toNat % 2 ^ 62 := by
  have hms := h.milliseconds
  have hcounter := h.counter
  unfold counterBits at hcounter
  have hrandom : random8.toNat % 2 ^ 62 < 2 ^ 62 := Nat.mod_lt _ (by norm_num)
  rw [value, Nat.and_two_pow_sub_one_eq_mod, Nat.and_two_pow_sub_one_eq_mod, Nat.mod_eq_of_lt hms]
  -- from the right on, what is added lies below the lowest bit of what is there
  rw [Nat.or_assoc, Nat.or_assoc, Nat.or_assoc, ← Nat.shiftLeft_add_eq_or_of_lt hrandom,
    ← Nat.shiftLeft_add_eq_or_of_lt (i := 64) (by omega), ← Nat.shiftLeft_add_eq_or_of_lt (i := 76) (by omega),
    ← Nat.shiftLeft_add_eq_or_of_lt (i := 80) (by omega)]
  omega

/-- A UUID has 128 bits. -/
theorem value_lt (h : s.Fits) (random8 : UInt64) : s.value random8 < 2 ^ 128 := by
  have hms := h.milliseconds
  have hcounter := h.counter
  unfold counterBits at hcounter
  rw [value_eq h]
  omega

/-- **The fields are where they belong.** -/
theorem fields_value (h : s.Fits) (random8 : UInt64) :
    version (s.value random8) = 7 ∧ variant (s.value random8) = 0b10
      ∧ timestamp (s.value random8) = s.lastMilliseconds := by
  have hcounter := h.counter
  unfold counterBits at hcounter
  rw [version, variant, timestamp, Nat.shiftRight_eq_div_pow, Nat.shiftRight_eq_div_pow,
    Nat.shiftRight_eq_div_pow, value_eq h]
  refine ⟨?_, ?_, by omega⟩
  · rw [show 0xf = 2 ^ 4 - 1 from rfl, Nat.and_two_pow_sub_one_eq_mod]
    omega
  · rw [show 0b11 = 2 ^ 2 - 1 from rfl, Nat.and_two_pow_sub_one_eq_mod]
    omega

/-- Timestamp and counter as one number. -/
def rank (s : Uuid7State) : ℕ := s.lastMilliseconds * 2 ^ counterBits + s.lastCounter

/-- What is ranked higher has a larger value and no smaller timestamp, whatever its random bits. -/
theorem value_lt_value (h : s.Fits) (h' : s'.Fits) (hrank : s.rank < s'.rank) (random8 random8' : UInt64) :
    s.value random8 < s'.value random8' ∧ s.lastMilliseconds ≤ s'.lastMilliseconds := by
  have hcounter := h.counter
  have hcounter' := h'.counter
  unfold rank counterBits at *
  rw [value_eq h, value_eq h']
  omega

/-- The counter stays within its bits. -/
theorem counter_next (h : s.lastCounter < 2 ^ counterBits) : (s.next r).lastCounter < 2 ^ counterBits := by
  unfold next
  dsimp only
  split_ifs with hahead hfull
  · show r.random2.toNat &&& (2 ^ 11 - 1) < _
    rw [Nat.and_two_pow_sub_one_eq_mod]
    unfold counterBits
    omega
  · show 0 < _
    omega
  · exact not_le.mp hfull

/-- **Every call ranks higher** than the one before it, wherever the clock stands. -/
theorem rank_lt_next (h : s.lastCounter < 2 ^ counterBits) : s.rank < (s.next r).rank := by
  unfold next rank counterBits at *
  dsimp only
  split_ifs with hahead hfull
  · show _ < (r.timeNs / 1000000).toNat * 2 ^ 12 + _
    omega
  · show _ < (s.lastMilliseconds + 1) * 2 ^ 12 + 0
    omega
  · show _ < s.lastMilliseconds * 2 ^ 12 + (s.lastCounter + 1)
    omega

end Uuid7State

/-! ## Runs -/

section Run

variable {s : Uuid7State} {calls : List Readings}

/-- Calls do not set the clock and counter back. -/
theorem rank_le_afterCalls (h : s.lastCounter < 2 ^ counterBits) (calls : List Readings) :
    s.rank ≤ (afterCalls s calls).rank ∧ (afterCalls s calls).lastCounter < 2 ^ counterBits := by
  induction calls generalizing s with
  | nil => exact ⟨le_rfl, h⟩
  | cons r calls ih =>
    obtain ⟨hle, hcounter⟩ := ih (s := s.next r) (Uuid7State.counter_next h)
    exact ⟨(Uuid7State.rank_lt_next h).le.trans hle, hcounter⟩

/-- Every UUID of a run is the value of a state that ranks higher than the first one and fits its fields. -/
theorem state_of_mem_minted (h : s.lastCounter < 2 ^ counterBits)
    (hroom : (afterCalls s calls).lastMilliseconds < 2 ^ 48) {u : ℕ} (hu : u ∈ minted s calls) :
    ∃ s' random8, u = Uuid7State.value s' random8 ∧ s'.Fits ∧ s.rank < s'.rank := by
  induction calls generalizing s with
  | nil => cases hu
  | cons r calls ih =>
    have hcounter : (s.next r).lastCounter < 2 ^ counterBits := Uuid7State.counter_next h
    rcases List.mem_cons.mp hu with rfl | hu
    · refine ⟨s.next r, r.random8, rfl, ⟨?_, hcounter⟩, Uuid7State.rank_lt_next h⟩
      obtain ⟨hle, hlast⟩ := rank_le_afterCalls hcounter calls
      change (afterCalls (s.next r) calls).lastMilliseconds < _ at hroom
      unfold Uuid7State.rank counterBits at *
      omega
    · obtain ⟨s', random8, heq, hfits, hrank⟩ := ih hcounter hroom hu
      exact ⟨s', random8, heq, hfits, (Uuid7State.rank_lt_next h).trans hrank⟩

/-- Every call carries into the timestamp once at most. -/
theorem lastMilliseconds_le {bound : ℕ} (hs : s.lastMilliseconds ≤ bound)
    (hcalls : ∀ r ∈ calls, r.timeNs / 1000000 ≤ bound) :
    (afterCalls s calls).lastMilliseconds ≤ bound + calls.length := by
  induction calls generalizing s bound with
  | nil => exact hs
  | cons r calls ih =>
    have hfirst := hcalls r List.mem_cons_self
    have hnext : (s.next r).lastMilliseconds ≤ bound + 1 := by
      unfold Uuid7State.next
      dsimp only
      split_ifs with hahead hfull
      · show (r.timeNs / 1000000).toNat ≤ _
        omega
      · show s.lastMilliseconds + 1 ≤ _
        omega
      · show s.lastMilliseconds ≤ _
        omega
    have hrest := ih hnext fun r' hr' => (hcalls r' (List.mem_cons_of_mem _ hr')).trans (by omega)
    rw [List.length_cons]
    exact hrest.trans (by omega)

/-- **The UUIDs of a process increase**, as numbers and as text, whatever its clock reads, as long as the
timestamps stay within their 48 bits; their timestamps never decrease, and each of them is of version 7 and of
the RFC's variant. -/
theorem uuid7_increasing (calls : List Readings)
    (hroom : (afterCalls .init calls).lastMilliseconds < 2 ^ 48) :
    (minted .init calls).Pairwise (fun u v => u < v ∧ uuidText u < uuidText v ∧ timestamp u ≤ timestamp v)
      ∧ ∀ u ∈ minted .init calls, u < 2 ^ 128 ∧ version u = 7 ∧ variant u = 0b10 := by
  have hinit : Uuid7State.init.lastCounter < 2 ^ counterBits := by decide
  generalize Uuid7State.init = s at hroom hinit ⊢
  refine ⟨?_, fun u hu => ?_⟩
  · induction calls generalizing s with
    | nil => exact .nil
    | cons r calls ih =>
      have hcounter : (s.next r).lastCounter < 2 ^ counterBits := Uuid7State.counter_next hinit
      refine List.pairwise_cons.mpr ⟨fun v hv => ?_, ih _ hroom hcounter⟩
      obtain ⟨s', random8, rfl, hfits, hrank⟩ := state_of_mem_minted hcounter hroom hv
      have hfirst : (s.next r).Fits := by
        refine ⟨?_, hcounter⟩
        have hlast := hfits.milliseconds
        have hsmall := hfits.counter
        unfold Uuid7State.rank counterBits at *
        omega
      obtain ⟨hvalue, hms⟩ := Uuid7State.value_lt_value hfirst hfits hrank r.random8 random8
      refine ⟨hvalue, uuidText_lt hvalue (Uuid7State.value_lt hfits _), ?_⟩
      show timestamp ((s.next r).value r.random8) ≤ _
      rw [(Uuid7State.fields_value hfirst _).2.2, (Uuid7State.fields_value hfits _).2.2]
      exact hms
  · obtain ⟨s', random8, rfl, hfits, -⟩ := state_of_mem_minted hinit hroom hu
    obtain ⟨hversion, hvariant, -⟩ := Uuid7State.fields_value hfits random8
    exact ⟨Uuid7State.value_lt hfits _, hversion, hvariant⟩

end Run

/-- A clock that goes back, and one that stands still. -/
def unsteadyClock : List Readings := [⟨7000000, 9, 1⟩, ⟨-3, 0, 5⟩, ⟨7000000, 65535, 0⟩, ⟨8000000, 2, 3⟩]

/-- The clock stands still and goes back, and the UUIDs increase. -/
theorem uuid7_increasing_unsteady :
    (minted .init unsteadyClock).Pairwise
    (fun u v => u < v ∧ uuidText u < uuidText v ∧ timestamp u ≤ timestamp v)
      ∧ ∀ u ∈ minted .init unsteadyClock, u < 2 ^ 128 ∧ version u = 7 ∧ variant u = 0b10 := by
  refine uuid7_increasing unsteadyClock (lt_of_le_of_lt (@lastMilliseconds_le _ _ 8 ?_ ?_) ?_)
  · decide
  · decide
  · decide

end Jasil
