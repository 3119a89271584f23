import Jasil.State.Provider
import Jasil.Transition.Trace
import Mathlib.Data.List.TakeDrop

/-! # Reading exactly as many bytes as declared
`ExactSizeReader` reads one source under a size that the caller declared, and checks at the end of it that
nothing is left over. The source delivers what it holds in chunks of its own choosing, and may fail instead.

* **`Source.read`**, **`ExactSizeReader.answer`**: one read of the source, and one call of the reader.
* **`Honest`**: a call hands on what comes next, and reports the end of a source of the declared size only.
* **`honest_of_kept`**: every call is honest that finds all bytes handed on that were taken from the source so
  far. -/

namespace Jasil.Storage

open State (Bytes)

/-! ## The source -/

/-- What the source does when it is read. -/
inductive Delivery
  /-- It raises, and consumes nothing. -/
  | fails
  /-- It delivers one byte and at most so many more. -/
  | chunk (more : ℕ)
  deriving DecidableEq

/-- A stream of fixed content. -/
structure Source where
  content : Bytes
  deliveries : ℕ → Delivery
  position : ℕ
  reads : ℕ

/-- What a reader complains about. -/
inductive SizeError
  /-- Storage part source ended before declared size=… -/
  | ended (size : ℕ)
  /-- Storage part source returned more than requested for declared size=… -/
  | returnedMore (size : ℕ)
  /-- Storage part source exceeds declared size=… -/
  | exceeds (size : ℕ)
  /-- Storage part source was not consumed to declared size=… -/
  | notConsumed (size : ℕ)
  deriving DecidableEq

/-- What a read raises. -/
inductive ReadError
  | size (e : SizeError)
  /-- What the source raised. -/
  | source
  deriving DecidableEq

/-- `self._source.read(…)`. A source that has nothing left returns nothing. -/
def Source.read (s : Source) : Except ReadError Bytes × Source :=
  match s.deliveries s.reads with
  | .fails => (.error .source, { s with reads := s.reads + 1 })
  | .chunk more =>
    let data := (s.content.drop s.position).take (more + 1)
    (.ok data, { s with position := s.position + data.length, reads := s.reads + 1 })

/-! ## The reader -/

/-- `ExactSizeReader`. -/
structure ExactSizeReader where
  source : Source
  size : ℕ
  remaining : ℕ
  eofVerified : Bool

/-- A call of the reader. -/
inductive Request
  | read (size : ℤ)
  | verifyComplete
  deriving DecidableEq

namespace ExactSizeReader

/-- `__init__`. -/
def new (source : Source) (size : ℤ) : Option ExactSizeReader :=
  if size < 0 then none else some ⟨source, size.toNat, size.toNat, false⟩

/-- `_verify_eof`. -/
def verifyEof (r : ExactSizeReader) : Except ReadError Unit × ExactSizeReader :=
  if r.eofVerified then (.ok (), r)
  else
    match r.source.read with
    | (.error e, source) => (.error e, { r with source })
    | (.ok data, source) =>
      if data = [] then (.ok (), { r with source, eofVerified := true })
      else (.error (.size (.exceeds r.size)), { r with source })

/-- `verify_complete`. -/
def verifyComplete (r : ExactSizeReader) : Except ReadError Unit × ExactSizeReader :=
  if r.remaining ≠ 0 then (.error (.size (.notConsumed r.size)), r) else r.verifyEof

/-- The result of a check, and what is returned after it. -/
def thenReturn (checked : Except ReadError Unit × ExactSizeReader) (data : Bytes) :
    Except ReadError Bytes × ExactSizeReader :=
  (checked.1.map fun _ => data, checked.2)

/-- `read`. -/
def read (r : ExactSizeReader) (size : ℤ) : Except ReadError Bytes × ExactSizeReader :=
  if r.remaining = 0 then thenReturn r.verifyComplete []
  else if size = 0 then (.ok [], r)
  else
    let readSize := if size < 0 then r.remaining else min size.toNat r.remaining
    match r.source.read with
    | (.error e, source) => (.error e, { r with source })
    | (.ok data, source) =>
      if data = [] then (.error (.size (.ended r.size)), { r with source })
      else if readSize < data.length then (.error (.size (.returnedMore r.size)), { r with source })
      else
        let r := { r with source, remaining := r.remaining - data.length }
        if r.remaining = 0 then thenReturn r.verifyEof data else (.ok data, r)

/-- What a call returns or raises, and the reader after it. -/
def answer (r : ExactSizeReader) : Request → Except ReadError Bytes × ExactSizeReader
  | .read size => r.read size
  | .verifyComplete => thenReturn r.verifyComplete []

end ExactSizeReader

/-- The bytes that a call hands on. -/
def handedOn (result : Except ReadError Bytes) : Bytes := result.toOption.getD []

/-- What a read returns is handed on. -/
@[simp] theorem handedOn_ok (data : Bytes) : handedOn (.ok data) = data := rfl

/-- What raises hands on nothing. -/
@[simp] theorem handedOn_error (e : ReadError) : handedOn (.error e) = [] := rfl

/-- The reader after calls, and what they handed on. -/
def afterRequests (r : ExactSizeReader) (requests : List Request) : ExactSizeReader × Bytes :=
  requests.foldl (fun (r, yielded) q => ((r.answer q).2, yielded ++ handedOn (r.answer q).1)) (r, [])

/-- The whole source is of the declared size, and was handed on. -/
def Complete (r : ExactSizeReader) (yielded : Bytes) : Prop := r.source.content.length = r.size
    ∧ yielded = r.source.content

/-- **A call is honest**: it hands on what comes next, within the declared size; it reports the end of the
source only when the source is of that size and was handed on as a whole; and otherwise it raises a size
error, unless the source itself raises. -/
structure Honest (r : ExactSizeReader) (yielded : Bytes) (q : Request)
    (result : Except ReadError Bytes) : Prop where
  next : yielded ++ handedOn result <+: r.source.content
  within : (yielded ++ handedOn result).length ≤ r.size
  complete : q ≠ .read 0 → result = .ok [] → Complete r yielded
  otherwise : q ≠ .read 0 → handedOn result = [] → ¬ Complete r yielded →
    result = .error .source ∨ ∃ e, result = .error (.size e)

/-- All bytes that were taken from the source were handed on. -/
def Kept (r : ExactSizeReader) (yielded : Bytes) : Prop := r.source.position = yielded.length

/-! ## One call -/

section Step

variable {r : ExactSizeReader} {yielded : Bytes} {q : Request}

/-- The reader counts what it has handed on. -/
structure Lossless (r : ExactSizeReader) (yielded : Bytes) : Prop where
  next : yielded <+: r.source.content
  remaining : r.remaining + yielded.length = r.size
  verified : r.eofVerified = true → yielded = r.source.content ∧ r.remaining = 0

/-- Bytes that are lost stay lost, and as long as none is, the reader counts right. -/
structure ReaderInv (r : ExactSizeReader) (yielded : Bytes) : Prop where
  le : yielded.length ≤ r.source.position
  kept : Kept r yielded → Lossless r yielded

/-- What one read of the source does. -/
theorem Source.read_cases (s : Source) :
    (∃ s', s.read = (.error .source, s') ∧ s'.content = s.content ∧ s'.position = s.position)
      ∨ ∃ data s', s.read = (.ok data, s') ∧ s'.content = s.content ∧ s'.position = s.position + data.length
        ∧ data <+: s.content.drop s.position ∧ (data = [] → s.content.length ≤ s.position) := by
  unfold Source.read
  cases hdelivery : s.deliveries s.reads with
  | fails => exact .inl ⟨_, rfl, rfl, rfl⟩
  | chunk more =>
    refine .inr ⟨_, _, rfl, rfl, rfl, List.take_prefix _ _, fun hnil => ?_⟩
    rcases List.take_eq_nil_iff.mp hnil with hzero | hdrop
    · omega
    · exact List.drop_eq_nil_iff.mp hdrop

/-- What follows a prefix of the content goes on with it. -/
theorem extend_handed_on {content data : Bytes} (h : yielded <+: content)
    (hdata : data <+: content.drop yielded.length) :
    yielded ++ data <+: content := by
  obtain ⟨rest, rfl⟩ := h
  rw [List.drop_left] at hdata
  exact (List.prefix_append_right_inj yielded).mpr hdata

/-- What a call does to an invariant reader. -/
structure Answered (r : ExactSizeReader) (yielded : Bytes) (q : Request) (result : Except ReadError Bytes)
    (r' : ExactSizeReader) : Prop where
  content : r'.source.content = r.source.content
  size : r'.size = r.size
  inv : ReaderInv r' (yielded ++ handedOn result)
  honest : Kept r yielded → Honest r yielded q result

/-- No more is handed on than the size. -/
theorem Lossless.length_le (h : Lossless r yielded) : yielded.length ≤ r.size := by
  have hcount := h.remaining
  omega

/-- A call that raises before it takes anything. -/
theorem answered_untouched {r' : ExactSizeReader} {e : ReadError} (hinv : ReaderInv r yielded)
    (hcontent : r'.source.content = r.source.content) (hsize : r'.size = r.size)
    (hposition : r'.source.position = r.source.position) (hremaining : r'.remaining = r.remaining)
    (hverified : r'.eofVerified = r.eofVerified) : Answered r yielded q (.error e) r' := by
  refine ⟨hcontent, hsize, ⟨?_, fun hkept => ?_⟩, fun hkept => ⟨?_, ?_, fun _ h => ?_, fun _ _ _ => ?_⟩⟩
  · rw [hposition]
    simpa using hinv.le
  · have hlossless := hinv.kept (by simpa [Kept, hposition] using hkept)
    show Lossless r' (yielded ++ [])
    rw [List.append_nil]
    exact ⟨hcontent ▸ hlossless.next, by rw [hremaining, hsize]; exact hlossless.remaining,
      by rw [hcontent, hremaining, hverified]; exact hlossless.verified⟩
  · simpa using (hinv.kept hkept).next
  · simpa using (hinv.kept hkept).length_le
  · cases h
  · cases e with
    | source => exact .inl rfl
    | size e => exact .inr ⟨e, rfl⟩

/-- A call that raises after it took something. -/
theorem answered_lost {r' : ExactSizeReader} {e : ReadError} (hinv : ReaderInv r yielded)
    (hcontent : r'.source.content = r.source.content) (hsize : r'.size = r.size)
    (hposition : r.source.position < r'.source.position) : Answered r yielded q (.error e) r' := by
  have hle := hinv.le
  refine ⟨hcontent, hsize, ⟨?_, fun hkept => ?_⟩, fun hkept => ⟨?_, ?_, fun _ h => ?_, fun _ _ _ => ?_⟩⟩
  · rw [handedOn_error, List.append_nil]
    omega
  · -- what is lost now stays lost
    have hcount : r'.source.position = (yielded ++ []).length := hkept
    rw [List.append_nil] at hcount
    omega
  · simpa using (hinv.kept hkept).next
  · simpa using (hinv.kept hkept).length_le
  · cases h
  · cases e with
    | source => exact .inl rfl
    | size e => exact .inr ⟨e, rfl⟩

/-- The check at the end: it passes only at the end of the source. -/
theorem verifyEof_cases (r : ExactSizeReader) :
    ∃ result r', r.verifyEof = (result, r') ∧ r'.source.content = r.source.content ∧ r'.size = r.size
      ∧ r'.remaining = r.remaining
      ∧ (result = .ok () ∧ r'.source.position = r.source.position
            ∧ (r.eofVerified = true ∨ r'.eofVerified = true ∧ r.source.content.length ≤ r.source.position)
          ∨ result = .error .source ∧ r'.source.position = r.source.position ∧ r'.eofVerified = r.eofVerified
          ∨ result = .error (.size (.exceeds r.size)) ∧ r.source.position < r'.source.position) := by
  unfold ExactSizeReader.verifyEof
  by_cases hverified : r.eofVerified = true
  · rw [if_pos hverified]
    exact ⟨_, _, rfl, rfl, rfl, rfl, .inl ⟨rfl, rfl, .inl hverified⟩⟩
  · rw [if_neg hverified]
    rcases r.source.read_cases with ⟨s', hread, hcontent, hposition⟩
      | ⟨data, s', hread, hcontent, hposition, -, hnil⟩
    · rw [hread]
      exact ⟨_, _, rfl, hcontent, rfl, rfl, .inr (.inl ⟨rfl, hposition, rfl⟩)⟩
    · rw [hread]
      dsimp only
      by_cases hdata : data = []
      · rw [if_pos hdata]
        refine ⟨_, _, rfl, hcontent, rfl, rfl, .inl ⟨rfl, ?_, .inr ⟨rfl, hnil hdata⟩⟩⟩
        rw [hposition, hdata]
        rfl
      · rw [if_neg hdata]
        refine ⟨_, _, rfl, hcontent, rfl, rfl, .inr (.inr ⟨rfl, ?_⟩)⟩
        have hlength := List.length_pos_iff.mpr hdata
        show r.source.position < s'.position
        omega

/-- The check of a reader that has nothing left to read. -/
theorem answered_verifyEof (hinv : ReaderInv r yielded) (hnone : r.remaining = 0) :
    Answered r yielded q (ExactSizeReader.thenReturn r.verifyEof []).1
      (ExactSizeReader.thenReturn r.verifyEof []).2 := by
  obtain ⟨result, r', hcheck, hcontent, hsize, hremaining, hcases⟩ := verifyEof_cases r
  rw [hcheck]
  rcases hcases with ⟨rfl, hposition, hend⟩ | ⟨rfl, hposition, hverified⟩ | ⟨rfl, hposition⟩
  · -- the source is at its end
    have hwhole (hlossless : Lossless r yielded) (hkept : Kept r yielded) : yielded = r.source.content := by
      rcases hend with hverified | ⟨-, hle⟩
      · exact (hlossless.verified hverified).1
      · exact hlossless.next.eq_of_length_le (by rwa [hkept] at hle)
    have hcomplete (hkept : Kept r yielded) : Complete r yielded := by
      have hlossless := hinv.kept hkept
      have heq := hwhole hlossless hkept
      refine ⟨?_, heq⟩
      have hcount := hlossless.remaining
      rw [hnone, Nat.zero_add, heq] at hcount
      exact hcount
    show Answered r yielded q (.ok []) r'
    refine ⟨hcontent, hsize, ⟨?_, fun hkept => ?_⟩, fun hkept => ⟨?_, ?_, fun _ _ => ?_, fun _ _ hnot => ?_⟩⟩
    · rw [hposition]
      simpa using hinv.le
    · have hbefore : Kept r yielded := by simpa [Kept, hposition] using hkept
      have hlossless := hinv.kept hbefore
      show Lossless r' (yielded ++ [])
      rw [List.append_nil]
      refine ⟨hcontent ▸ hlossless.next, by rw [hremaining, hsize]; exact hlossless.remaining, fun _ => ?_⟩
      rw [hcontent, hremaining]
      exact ⟨hwhole hlossless hbefore, hnone⟩
    · simpa using (hinv.kept hkept).next
    · simpa using (hinv.kept hkept).length_le
    · exact hcomplete hkept
    · exact absurd (hcomplete hkept) hnot
  · exact answered_untouched hinv hcontent hsize hposition hremaining hverified
  · exact answered_lost hinv hcontent hsize hposition

/-- A read that hands on what it took. -/
theorem answered_data {data : Bytes} {r' : ExactSizeReader} (hinv : ReaderInv r yielded) (hdata : data ≠ [])
    (hcontent : r'.source.content = r.source.content) (hsize : r'.size = r.size)
    (hposition : r'.source.position = r.source.position + data.length)
    (hremaining : r'.remaining + data.length = r.remaining)
    (hnext : data <+: r.source.content.drop r.source.position)
    (hverified : Kept r yielded → r'.eofVerified = true → yielded ++ data = r.source.content
    ∧ r'.remaining = 0) :
    Answered r yielded q (.ok data) r' := by
  have hlater (hkept : Kept r yielded) : yielded ++ data <+: r.source.content := by
    have hlossless := hinv.kept hkept
    rw [hkept] at hnext
    exact extend_handed_on hlossless.next hnext
  have hcount (hkept : Kept r yielded) : r'.remaining + (yielded ++ data).length = r.size := by
    have hcount := (hinv.kept hkept).remaining
    rw [List.length_append]
    omega
  refine ⟨hcontent, hsize, ⟨?_, fun hkept => ?_⟩, fun hkept => ⟨hlater hkept, ?_, fun _ h => ?_, fun _ h => ?_⟩⟩
  · show (yielded ++ data).length ≤ _
    rw [hposition, List.length_append]
    exact Nat.add_le_add_right hinv.le _
  · have hbefore : Kept r yielded := by
      have hafter : r'.source.position = (yielded ++ data).length := hkept
      rw [hposition, List.length_append] at hafter
      exact Nat.add_right_cancel hafter
    show Lossless r' (yielded ++ data)
    exact ⟨hcontent ▸ hlater hbefore, hsize ▸ hcount hbefore, hcontent ▸ hverified hbefore⟩
  · show (yielded ++ data).length ≤ _
    have htotal := hcount hkept
    omega
  · exact absurd (Except.ok.inj h) hdata
  · exact absurd h hdata

/-- **A read is answered** as the source's bytes are. -/
theorem answered_read (hinv : ReaderInv r yielded) (size : ℤ) :
    Answered r yielded (.read size) (r.read size).1 (r.read size).2 := by
  unfold ExactSizeReader.read
  -- all was read before, and the end is looked at
  by_cases hnone : r.remaining = 0
  · rw [if_pos hnone, ExactSizeReader.verifyComplete, if_neg (not_not.mpr hnone)]
    exact answered_verifyEof hinv hnone
  rw [if_neg hnone]
  by_cases hzero : size = 0
  · -- nothing is asked for
    subst hzero
    rw [if_pos rfl]
    refine ⟨rfl, rfl, ?_, fun hkept => ⟨?_, ?_, fun h => absurd rfl h, fun h => absurd rfl h⟩⟩
    · show ReaderInv r (yielded ++ [])
      rwa [List.append_nil]
    · simpa using (hinv.kept hkept).next
    · simpa using (hinv.kept hkept).length_le
  rw [if_neg hzero]
  rcases r.source.read_cases with ⟨s', hread, hcontent, hposition⟩
    | ⟨data, s', hread, hcontent, hposition, hnext, -⟩
  · rw [hread]
    exact answered_untouched hinv hcontent rfl hposition rfl rfl
  rw [hread]
  dsimp only
  -- the source ends early
  by_cases hdata : data = []
  · rw [if_pos hdata]
    refine answered_untouched hinv hcontent rfl ?_ rfl rfl
    rw [hposition, hdata]
    rfl
  rw [if_neg hdata]
  have hlength := List.length_pos_iff.mpr hdata
  -- the source hands on more than was asked for
  by_cases hmore : (if size < 0 then r.remaining else min size.toNat r.remaining) < data.length
  · rw [if_pos hmore]
    refine answered_lost hinv hcontent rfl ?_
    show r.source.position < s'.position
    omega
  rw [if_neg hmore]
  have hfits : data.length ≤ r.remaining := by
    split at hmore
    · omega
    · omega
  by_cases hlast : r.remaining - data.length = 0
  · -- the declared bytes are read, and the source has to be at its end
    rw [if_pos hlast]
    obtain ⟨result, r', hcheck, hcontent', hsize, hremaining, hcases⟩ :=
      verifyEof_cases { r with source := s', remaining := r.remaining - data.length }
    rw [hcheck]
    have hsource : r'.source.content = r.source.content := hcontent'.trans hcontent
    rcases hcases with ⟨rfl, hposition', hend⟩ | ⟨rfl, hposition', -⟩ | ⟨rfl, hposition'⟩
    · refine answered_data hinv hdata hsource hsize (hposition'.trans hposition) ?_ hnext fun hkept _ => ?_
      · show r'.remaining + data.length = r.remaining
        rw [hremaining]
        show r.remaining - data.length + data.length = r.remaining
        omega
      · have hlossless := hinv.kept hkept
        refine ⟨?_, hremaining.trans hlast⟩
        rcases hend with hverified | ⟨-, hle⟩
        · exact absurd (hlossless.verified hverified).2 hnone
        · rw [hkept] at hnext
          refine (extend_handed_on hlossless.next hnext).eq_of_length_le ?_
          change s'.content.length ≤ s'.position at hle
          rw [hcontent, hposition, hkept] at hle
          rwa [List.length_append]
    · refine answered_lost hinv hsource hsize ?_
      show r.source.position < r'.source.position
      rw [hposition']
      show r.source.position < s'.position
      omega
    · refine answered_lost hinv hsource hsize ?_
      show r.source.position < r'.source.position
      change s'.position < r'.source.position at hposition'
      omega
  · rw [if_neg hlast]
    refine answered_data hinv hdata hcontent rfl hposition ?_ hnext fun hkept hverified => ?_
    · show r.remaining - data.length + data.length = r.remaining
      omega
    · exact absurd ((hinv.kept hkept).verified hverified).2 hnone

/-- **One call**: it is honest when nothing was lost before it. -/
theorem answered (hinv : ReaderInv r yielded) (q : Request) :
    Answered r yielded q (r.answer q).1 (r.answer q).2 := by
  cases q with
  | read size => exact answered_read hinv size
  | verifyComplete =>
    show Answered r yielded _ (ExactSizeReader.thenReturn r.verifyComplete []).1
      (ExactSizeReader.thenReturn r.verifyComplete []).2
    unfold ExactSizeReader.verifyComplete
    by_cases hnone : r.remaining = 0
    · rw [if_neg (not_not.mpr hnone)]
      exact answered_verifyEof hinv hnone
    · rw [if_pos hnone]
      exact answered_untouched hinv rfl rfl rfl rfl rfl

/-- A read that returns hands on what it took, and counts it. -/
theorem read_ok {size : ℤ} {data : Bytes} {r' : ExactSizeReader} (h : r.read size = (.ok data, r')) :
    r'.source.position = r.source.position + data.length ∧ (data ≠ [] → r'.remaining < r.remaining) := by
  -- a check at the end that passes takes nothing
  have heof {r₁ r₂ : ExactSizeReader} {data' : Bytes}
      (hcheck : ExactSizeReader.thenReturn r₁.verifyEof data' = (.ok data, r₂)) :
      data' = data ∧ r₂.source.position = r₁.source.position ∧ r₂.remaining = r₁.remaining := by
    obtain ⟨result, r₃, hverify, -, -, hremaining, hcases⟩ := verifyEof_cases r₁
    rw [ExactSizeReader.thenReturn, hverify] at hcheck
    obtain ⟨hdata, rfl⟩ := Prod.mk.inj hcheck
    rcases hcases with ⟨rfl, hposition, -⟩ | ⟨rfl, -, -⟩ | ⟨rfl, -⟩
    · exact ⟨Except.ok.inj hdata, hposition, hremaining⟩
    · cases hdata
    · cases hdata
  unfold ExactSizeReader.read at h
  by_cases hnone : r.remaining = 0
  · rw [if_pos hnone, ExactSizeReader.verifyComplete, if_neg (not_not.mpr hnone)] at h
    obtain ⟨rfl, hposition, -⟩ := heof h
    exact ⟨hposition, fun hne => absurd rfl hne⟩
  rw [if_neg hnone] at h
  by_cases hzero : size = 0
  · rw [if_pos hzero] at h
    cases h
    exact ⟨rfl, fun hne => absurd rfl hne⟩
  rw [if_neg hzero] at h
  rcases r.source.read_cases with ⟨s', hread, -, -⟩ | ⟨chunk, s', hread, -, hposition, -, -⟩
  · rw [hread] at h
    cases h
  rw [hread] at h
  dsimp only at h
  by_cases hempty : chunk = []
  · rw [if_pos hempty] at h
    cases h
  have hpos : 0 < chunk.length := List.length_pos_iff.mpr hempty
  rw [if_neg hempty] at h
  by_cases hmore : (if size < 0 then r.remaining else min size.toNat r.remaining) < chunk.length
  · rw [if_pos hmore] at h
    cases h
  rw [if_neg hmore] at h
  by_cases hlast : r.remaining - chunk.length = 0
  · rw [if_pos hlast] at h
    obtain ⟨rfl, hsame, hremaining⟩ := heof h
    refine ⟨hsame.trans hposition, fun _ => ?_⟩
    rw [hremaining]
    exact Nat.sub_lt (Nat.pos_of_ne_zero hnone) hpos
  · rw [if_neg hlast] at h
    cases h
    exact ⟨hposition, fun _ => Nat.sub_lt (Nat.pos_of_ne_zero hnone) hpos⟩

/-- What was kept is kept by a read. -/
theorem kept_read {size : ℤ} {data : Bytes} {r' : ExactSizeReader} (hkept : Kept r yielded)
    (h : r.read size = (.ok data, r')) : Kept r' (yielded ++ data) := by
  rw [Kept, (read_ok h).1, hkept, List.length_append]

end Step

/-! ## Runs -/

section Run

variable {r : ExactSizeReader} {source : Source} {size : ℤ}

/-- One request more. -/
theorem afterRequests_concat (r : ExactSizeReader) (requests : List Request) (q : Request) :
    afterRequests r (requests ++ [q]) = (((afterRequests r requests).1.answer q).2,
      (afterRequests r requests).2 ++ handedOn ((afterRequests r requests).1.answer q).1) := by
  rw [afterRequests, List.foldl_append]
  rfl

/-- Nothing was handed on before the first request. -/
theorem inv_new (h : ExactSizeReader.new source size = some r) : ReaderInv r [] := by
  unfold ExactSizeReader.new at h
  by_cases hneg : size < 0
  · rw [if_pos hneg] at h
    cases h
  · rw [if_neg hneg, Option.some.injEq] at h
    subst h
    exact ⟨Nat.zero_le _, fun _ => ⟨List.nil_prefix, rfl, Bool.noConfusion⟩⟩

/-- The invariant holds after any requests. -/
theorem inv_afterRequests (hinv : ReaderInv r []) (requests : List Request) :
    ReaderInv (afterRequests r requests).1 (afterRequests r requests).2 := by
  induction requests using List.reverseRecOn with
  | nil => exact hinv
  | append_singleton requests q ih =>
    rw [afterRequests_concat]
    exact (answered ih q).inv

/-- **Every call of a run is honest** that finds all bytes handed on that were taken from the source before
it. -/
theorem honest_of_kept (hnew : ExactSizeReader.new source size = some r) (requests : List Request)
    (hkept : EachAfter (fun past _ => Kept (afterRequests r past).1 (afterRequests r past).2) requests) :
    EachAfter (fun past q => Honest (afterRequests r past).1 (afterRequests r past).2 q
      ((afterRequests r past).1.answer q).1) requests := by
  intro past q rest hsplit
  exact (answered (inv_afterRequests (inv_new hnew) past) q).honest (hkept past q rest hsplit)

end Run

/-- Three bytes, one at a time; the second read fails. -/
def slowSource : Source := ⟨[1, 2, 3], fun reads => if reads = 1 then .fails else .chunk 0, 0, 0⟩

/-- The slow source is honest. -/
theorem honest_of_kept_slow :
    EachAfter (fun past q => Honest (afterRequests ⟨slowSource, 3, 3, false⟩ past).1
        (afterRequests ⟨slowSource, 3, 3, false⟩ past).2 q
        ((afterRequests ⟨slowSource, 3, 3, false⟩ past).1.answer q).1)
      [.read 2, .read (-1), .verifyComplete] := by
  refine @honest_of_kept _ slowSource 3 rfl _ ?_
  have hone : EachAfter (fun past _ => Kept (afterRequests ⟨slowSource, 3, 3, false⟩ past).1
      (afterRequests ⟨slowSource, 3, 3, false⟩ past).2) [Request.read 2] :=
    eachAfter_concat.mpr ⟨eachAfter_nil, rfl⟩
  have htwo : EachAfter (fun past _ => Kept (afterRequests ⟨slowSource, 3, 3, false⟩ past).1
      (afterRequests ⟨slowSource, 3, 3, false⟩ past).2) [Request.read 2, .read (-1)] :=
    eachAfter_concat.mpr ⟨hone, rfl⟩
  exact eachAfter_concat.mpr ⟨htwo, rfl⟩

/-- The surplus byte is taken by the check that complains about it, so that the next read finds the end. -/
theorem not_honest : ¬ ∀ (source : Source) (size : ℤ) (r : ExactSizeReader) (requests : List Request),
    ExactSizeReader.new source size = some r → source.position = 0 →
    EachAfter (fun past q => Honest (afterRequests r past).1 (afterRequests r past).2 q
      ((afterRequests r past).1.answer q).1) requests := by
  intro h
  have hrun := h ⟨[1, 2], fun _ => .chunk 0, 0, 0⟩ 1 _ [.read 1, .read 1] rfl rfl [.read 1] (.read 1) [] rfl
  have hwhole := hrun.complete (by decide) (by decide)
  exact absurd hwhole.1 (by decide)

end Jasil.Storage
