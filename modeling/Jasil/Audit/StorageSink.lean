import Jasil.Audit.FileSink
import Jasil.Storage.Keys

/-! # The sink in a bucket
A copy is written with one conditional `PutObject`, and read back only where there is one already. Several
calls do so at once; a request may fail, or be carried out though its answer is lost.

* **`objectKey`**: where an object of a storage area is in the bucket; **`objectKey_injective`**.
* **`Request`**: a `write_once` call, by what it does next.
* **`StorageSink.writesOnce`**: the area is a map that is written once.
* **`sinks_writeOnce`**: both sinks are. -/

namespace Jasil.Audit

open Objects (Text ValueError CaseFolding checkArea checkSegment checkKeyLength)

/-! ## Object keys -/

/-- `"/".join(part for part in (prefix, area, key) if part)`. -/
def joinedKey (root area key : Text) : Text := List.intercalate ['/'] ([root, area, key].filter (· ≠ []))

/-- `S3Storage._object_key`. -/
def objectKey (folding : CaseFolding) (root area key : Text) : Except ValueError Text := do
  checkArea folding area
  checkSegment key "key"
  checkKeyLength (joinedKey root area key) "object key (prefix, area and key)"
  .ok (joinedKey root area key)

/-- The parts of an object key. -/
theorem of_objectKey {folding : CaseFolding} {root area key path : Text}
    (h : objectKey folding root area key = .ok path) :
    area ≠ [] ∧ key ≠ [] ∧ path = joinedKey root area key := by
  obtain ⟨_, harea, h⟩ := Failing.ok_of_bind h
  obtain ⟨_, hsegment, h⟩ := Failing.ok_of_bind h
  obtain ⟨_, -, h⟩ := Failing.ok_of_bind h
  obtain ⟨_, harea, -⟩ := Failing.ok_of_bind harea
  exact ⟨Objects.ne_nil_of_checkSegment harea, Objects.ne_nil_of_checkSegment hsegment, (Except.ok.inj h).symm⟩

/-- What comes before the key, and the key. -/
theorem joinedKey_eq (root : Text) {area key : Text} (harea : area ≠ []) (hkey : key ≠ []) :
    joinedKey root area key = (if root = [] then [] else root ++ ['/']) ++ (area ++ '/' :: key) := by
  unfold joinedKey
  by_cases hroot : root = []
  · rw [if_pos hroot, List.filter_cons_of_neg (by simpa using hroot),
      List.filter_cons_of_pos (by simpa using harea),
      List.filter_cons_of_pos (by simpa using hkey)]
    simp [List.intercalate]
  · rw [if_neg hroot, List.filter_cons_of_pos (by simpa using hroot),
      List.filter_cons_of_pos (by simpa using harea),
      List.filter_cons_of_pos (by simpa using hkey)]
    simp [List.intercalate]

/-- **Two keys are two objects.** -/
theorem objectKey_injective {folding : CaseFolding} {root area key key' path : Text}
    (h : objectKey folding root area key = .ok path) (h' : objectKey folding root area key' = .ok path) :
    key = key' := by
  obtain ⟨harea, hkey, rfl⟩ := of_objectKey h
  obtain ⟨-, hkey', heq⟩ := of_objectKey h'
  rw [joinedKey_eq root harea hkey, joinedKey_eq root harea hkey'] at heq
  have htail := List.append_cancel_left (List.append_cancel_left heq)
  exact (List.cons.inj htail).2

/-! ## Calls -/

/-- A `write_once` call, by what it does next. -/
inductive Request
  /-- It puts its object, if there is none. -/
  | start
  /-- There is one: it reads it. -/
  | existing
  | returned
  /-- `ValueError`. -/
  | invalid (e : ValueError)
  /-- `AuditSinkConflictError`. -/
  | conflict
  /-- `StorageBackendUnavailableError`. -/
  | unavailable
  | crashed

/-- What may happen to a request. -/
inductive Answer
  | answered
  /-- It is carried out, and its answer is lost. -/
  | lost
  /-- Its answer is lost, and the client library sends it again. -/
  | retried
  | failed
  /-- The process dies, and its request was carried out or not. -/
  | crash (sent : Bool)

/-- Where a sink is. -/
structure SinkArea where
  folding : CaseFolding
  /-- The prefix of the storage in its bucket. -/
  root : Text
  area : Text

/-- The objects of a bucket. -/
abbrev Bucket := Text → Option (List UInt8)

/-- The object key of a name. -/
def SinkArea.path (sink : SinkArea) (name : String) : Except ValueError Text :=
  objectKey sink.folding sink.root sink.area name.toList

/-- The conditional `PutObject`: whether it found no object, and the bucket after it. -/
def Bucket.putIfNoneMatch (b : Bucket) (path : Text) (data : List UInt8) : Bool × Bucket :=
  if (b path).isSome then (false, b) else (true, Function.update b path (some data))

/-- What follows for a call. -/
def Request.act (sink : SinkArea) (entry : Entry String (List UInt8)) (b : Bucket) : Request → Answer →
    Option (Bucket × Request)
  | .start, answer =>
    match sink.path entry.name with
    | .error e => some (b, .invalid e)
    | .ok path =>
      let (created, put) := b.putIfNoneMatch path entry.content
      match answer with
      | .answered => some (put, if created then .returned else .existing)
      | .lost => some (put, .unavailable)
      | .retried => some (put, .existing)
      | .failed => some (b, .unavailable)
      | .crash sent => some (if sent then put else b, .crashed)
  | .existing, answer =>
    match sink.path entry.name with
    | .error e => some (b, .invalid e)
    | .ok path =>
      match answer with
      | .answered | .retried => some (b, if b path ≠ some entry.content then .conflict else .returned)
      | .lost | .failed => some (b, .unavailable)
      | .crash _ => some (b, .crashed)
  | .returned, _ | .invalid _, _ | .conflict, _ | .unavailable, _ | .crashed, _ => none

/-- The verdict of a call that is over. -/
def Request.verdict : Request → Option Verdict
  | .returned => some .accepted
  | .conflict => some .refused
  | _ => none

variable {ι : Type*} [DecidableEq ι]

/-- A sink in a bucket, and the calls of several processes. -/
structure StorageSink (ι : Type*) where
  bucket : Bucket
  calls : ι → Request

namespace StorageSink

/-- An empty bucket, and every write before its first request. -/
def init : StorageSink ι := ⟨fun _ => none, fun _ => .start⟩

/-- A request of one of the writes. -/
def step (sink : SinkArea) (entry : ι → Entry String (List UInt8)) (s : StorageSink ι) (a : ι × Answer) :
    Option (StorageSink ι) :=
  ((s.calls a.1).act sink (entry a.1) s.bucket a.2).map fun (bucket, request) =>
    ⟨bucket, Function.update s.calls a.1 request⟩

/-- `StorageAuditSink.read`. -/
def read (sink : SinkArea) (b : Bucket) (name : String) : Except ValueError (Option (List UInt8)) :=
  (sink.path name).map b

/-- What can be read under a name. -/
def readable (sink : SinkArea) (b : Bucket) (name : String) : Option (List UInt8) :=
  match read sink b name with
  | .ok content => content
  | .error _ => none

/-- What can be seen of the sink. -/
def observe (sink : SinkArea) (s : StorageSink ι) : OnceMap ι String (List UInt8) where
  stored := readable sink s.bucket
  began i := s.calls i ≠ .start
  verdict i := (s.calls i).verdict

end StorageSink

/-! ## The invariant -/

variable {sink : SinkArea} {entry : Entry String (List UInt8)} {b b' : Bucket} {r r' : Request} {name : String}
  {path : Text} {c : List UInt8}

open StorageSink (readable)

/-- A reader finds a content exactly under a name whose object has it. -/
theorem readable_eq_some : readable sink b name = some c ↔ ∃ path, sink.path name = .ok path
    ∧ b path = some c := by
  unfold readable StorageSink.read
  cases sink.path name with
  | error e =>
    refine iff_of_false ?_ ?_
    · rintro ⟨⟩
    · rintro ⟨_, ⟨⟩, -⟩
  | ok path =>
    constructor
    · exact fun h => ⟨path, rfl, h⟩
    · rintro ⟨_, ⟨⟩, h⟩
      exact h

/-- What a call relies on. -/
def Request.Fits (sink : SinkArea) (entry : Entry String (List UInt8)) (b : Bucket) : Request → Prop
  | .existing => ∃ c, readable sink b entry.name = some c
  | .returned => readable sink b entry.name = some entry.content
  | .conflict => ∃ c, readable sink b entry.name = some c ∧ c ≠ entry.content
  | _ => True

/-- Every object stays what it is. -/
def Bucket.Kept (b b' : Bucket) : Prop := ∀ path c, b path = some c → b' path = some c

/-- What is readable stays readable. -/
theorem Bucket.Kept.readable (h : b.Kept b') (hc : StorageSink.readable sink b name = some c) :
    StorageSink.readable sink b' name = some c := by
  obtain ⟨path, hpath, hobject⟩ := readable_eq_some.mp hc
  exact readable_eq_some.mpr ⟨path, hpath, h path c hobject⟩

/-- What a request has found stays true when others act. -/
theorem Request.Fits.kept (hr : r.Fits sink entry b) (h : b.Kept b') : r.Fits sink entry b' := by
  cases r with
  | existing =>
    obtain ⟨c, hc⟩ := hr
    exact ⟨c, h.readable hc⟩
  | returned => exact h.readable hr
  | conflict =>
    obtain ⟨c, hc, hdiffers⟩ := hr
    exact ⟨c, h.readable hc, hdiffers⟩
  | start | invalid | unavailable | crashed => trivial

/-- **A conditional put** leaves every object, and its own is there afterwards or another was there before. -/
theorem putIfNoneMatch_spec (b : Bucket) (path : Text) (data : List UInt8) :
    b.Kept (b.putIfNoneMatch path data).2
      ∧ (∀ other c, (b.putIfNoneMatch path data).2 other = some c → b other = some c ∨ other = path ∧ c = data)
      ∧ (∃ c, (b.putIfNoneMatch path data).2 path = some c)
      ∧ ((b.putIfNoneMatch path data).1 = true → (b.putIfNoneMatch path data).2 path = some data) := by
  unfold Bucket.putIfNoneMatch
  cases hpath : b path with
  | some old =>
    refine ⟨fun _ _ h => h, fun _ _ h => .inl h, ⟨old, hpath⟩, ?_⟩
    rintro ⟨⟩
  | none =>
    refine ⟨fun other c h => ?_, fun other c h => ?_, ⟨data, Function.update_self _ _ _⟩,
      fun _ => Function.update_self _ _ _⟩
    · refine (Function.update_of_ne ?_ _ _).trans h
      rintro rfl
      rw [hpath] at h
      cases h
    · by_cases hother : other = path
      · subst hother
        have hself : Function.update b other (some data) other = some data := Function.update_self _ _ _
        exact .inr ⟨rfl, (Option.some.inj (hself.symm.trans h)).symm⟩
      · exact .inl ((Function.update_of_ne hother _ _).symm.trans h)

/-- **What a step of a call does**: every object stays, a new one is the call's, and what the call goes on
with fits. -/
structure Request.Advance (sink : SinkArea) (entry : Entry String (List UInt8)) (b b' : Bucket) (r' : Request) :
    Prop where
  kept : b.Kept b'
  objects : ∀ path c, b' path = some c → b path = some c ∨ sink.path entry.name = .ok path ∧ c = entry.content
  fits : r'.Fits sink entry b'
  began : r' ≠ .start

/-- A step that leaves the bucket. -/
theorem advance_same (hr : r.Fits sink entry b) (hbegan : r ≠ .start) (h : (b, r) = (b', r')) :
    r'.Advance sink entry b b' := by
  obtain ⟨rfl, rfl⟩ := Prod.mk.inj h
  exact ⟨fun _ _ h => h, fun _ _ h => .inl h, hr, hbegan⟩

/-- A step that puts the object. -/
theorem advance_put (hpath : sink.path entry.name = .ok path)
    (hr : r.Fits sink entry (b.putIfNoneMatch path entry.content).2) (hbegan : r ≠ .start)
    (h : ((b.putIfNoneMatch path entry.content).2, r) = (b', r')) : r'.Advance sink entry b b' := by
  obtain ⟨rfl, rfl⟩ := Prod.mk.inj h
  obtain ⟨hkept, hnew, -, -⟩ := putIfNoneMatch_spec b path entry.content
  refine ⟨hkept, fun other c hother => ?_, hr, hbegan⟩
  rcases hnew other c hother with hold | ⟨rfl, hc⟩
  · exact .inl hold
  · exact .inr ⟨hpath, hc⟩

/-- **The first request of a write** is one of its advances. -/
theorem advance_of_start {answer : Answer} (h : Request.start.act sink entry b answer = some (b', r')) :
    r'.Advance sink entry b b' := by
  unfold Request.act at h
  dsimp only at h
  split at h
  · exact advance_same (r := .invalid _) trivial (by rintro ⟨⟩) (Option.some.inj h)
  · rename_i path hpath
    obtain ⟨-, -, ⟨c, hthere⟩, hcreated⟩ := putIfNoneMatch_spec b path entry.content
    have hexists : Request.existing.Fits sink entry (b.putIfNoneMatch path entry.content).2 :=
      ⟨c, readable_eq_some.mpr ⟨path, hpath, hthere⟩⟩
    cases answer with
    | answered =>
      refine advance_put (r := if (b.putIfNoneMatch path entry.content).1 then .returned else .existing) hpath
        ?_ ?_
        (Option.some.inj h)
      · split
        · rename_i htrue
          exact readable_eq_some.mpr ⟨path, hpath, hcreated htrue⟩
        · exact hexists
      · split <;> rintro ⟨⟩
    | lost => exact advance_put (r := .unavailable) hpath trivial (by rintro ⟨⟩) (Option.some.inj h)
    | retried => exact advance_put (r := .existing) hpath hexists (by rintro ⟨⟩) (Option.some.inj h)
    | failed => exact advance_same (r := .unavailable) trivial (by rintro ⟨⟩) (Option.some.inj h)
    | crash sent =>
      cases sent with
      | true => exact advance_put (r := .crashed) hpath trivial (by rintro ⟨⟩) (Option.some.inj h)
      | false => exact advance_same (r := .crashed) trivial (by rintro ⟨⟩) (Option.some.inj h)

/-- So is the one after an object was found. -/
theorem advance_of_existing {answer : Answer} (hr : Request.existing.Fits sink entry b)
    (h : Request.existing.act sink entry b answer = some (b', r')) : r'.Advance sink entry b b' := by
  unfold Request.act at h
  dsimp only at h
  split at h
  · exact advance_same (r := .invalid _) trivial (by rintro ⟨⟩) (Option.some.inj h)
  · rename_i path hpath
    -- what is read is the object, which is there
    have hread : (if b path ≠ some entry.content then Request.conflict else .returned).Fits sink entry b := by
      obtain ⟨c, hc⟩ := hr
      obtain ⟨path', hpath', hobject⟩ := readable_eq_some.mp hc
      obtain rfl := Except.ok.inj (hpath.symm.trans hpath')
      split
      · rename_i hdiffers
        exact ⟨c, hc, fun heq => hdiffers (heq ▸ hobject)⟩
      · rename_i hsame
        exact readable_eq_some.mpr ⟨path, hpath, not_not.mp hsame⟩
    have hbegan : (if b path ≠ some entry.content then Request.conflict else .returned) ≠ .start := by
      split <;> rintro ⟨⟩
    cases answer with
    | answered => exact advance_same hread hbegan (Option.some.inj h)
    | retried => exact advance_same hread hbegan (Option.some.inj h)
    | lost => exact advance_same (r := .unavailable) trivial (by rintro ⟨⟩) (Option.some.inj h)
    | failed => exact advance_same (r := .unavailable) trivial (by rintro ⟨⟩) (Option.some.inj h)
    | crash sent => exact advance_same (r := .crashed) trivial (by rintro ⟨⟩) (Option.some.inj h)

/-- So is every other. -/
theorem advance_of_act {answer : Answer} (hr : r.Fits sink entry b)
    (h : r.act sink entry b answer = some (b', r')) :
    r'.Advance sink entry b b' := by
  cases r with
  | start => exact advance_of_start h
  | existing => exact advance_of_existing hr h
  | returned => cases h
  | invalid e => cases h
  | conflict => cases h
  | unavailable => cases h
  | crashed => cases h

/-- A write that is accepted has returned. -/
theorem eq_returned_of_verdict (h : r.verdict = some .accepted) : r = .returned := by
  unfold Request.verdict at h
  split at h
  · rfl
  · cases h
  · cases h

/-- A write that is refused has found another content. -/
theorem eq_conflict_of_verdict (h : r.verdict = some .refused) : r = .conflict := by
  unfold Request.verdict at h
  split at h
  · cases h
  · rfl
  · cases h

namespace StorageSink

variable {entry : ι → Entry String (List UInt8)} {s s' : StorageSink ι}

/-- **The invariant**: every call fits the bucket, and an object is what a call had to store. -/
structure Inv (sink : SinkArea) (entry : ι → Entry String (List UInt8)) (s : StorageSink ι) : Prop where
  fits : ∀ i, (s.calls i).Fits sink (entry i) s.bucket
  objects : ∀ path c, s.bucket path = some c →
    ∃ i, s.calls i ≠ .start ∧ sink.path (entry i).name = .ok path ∧ (entry i).content = c

omit [DecidableEq ι] in
/-- In the beginning nothing is readable. -/
theorem inv_init : Inv sink entry (init : StorageSink ι) where
  fits _ := trivial
  objects := by rintro _ _ ⟨⟩

/-- A step of one write is an advance of it, and no other write moves. -/
theorem advance_of_step (h : Inv sink entry s) {a : ι × Answer} (hstep : s.step sink entry a = some s') :
    ∃ b r, s' = ⟨b, Function.update s.calls a.1 r⟩ ∧ r.Advance sink (entry a.1) s.bucket b := by
  obtain ⟨⟨b, r⟩, hact, rfl⟩ := Option.map_eq_some_iff.mp hstep
  exact ⟨b, r, rfl, advance_of_act (h.fits a.1) hact⟩

/-- **Every step keeps the invariant.** -/
theorem inv_step (h : Inv sink entry s) {a : ι × Answer} (hstep : s.step sink entry a = some s') :
    Inv sink entry s' := by
  obtain ⟨b, r, rfl, hadvance⟩ := advance_of_step h hstep
  obtain ⟨i, answer⟩ := a
  refine ⟨fun j => ?_, fun path c hc => ?_⟩
  · show (Function.update s.calls i r j).Fits sink (entry j) b
    by_cases hij : j = i
    · subst hij
      rw [Function.update_self]
      exact hadvance.fits
    · rw [Function.update_of_ne hij]
      exact (h.fits j).kept hadvance.kept
  · rcases hadvance.objects path c hc with hold | ⟨hpath, rfl⟩
    · obtain ⟨j, hj, hobject⟩ := h.objects path c hold
      exact ⟨j, update_ne hadvance.began hj, hobject⟩
    · refine ⟨i, ?_, hpath, rfl⟩
      show Function.update s.calls i r i ≠ .start
      rw [Function.update_self]
      exact hadvance.began

/-- **Every step is one of the write-once map**, or none. -/
theorem observe_step (h : Inv sink entry s) {a : ι × Answer} (hstep : s.step sink entry a = some s') :
    OnceMap.Step entry (s.observe sink) (s'.observe sink) := by
  have h' := inv_step h hstep
  obtain ⟨b, r, rfl, hadvance⟩ := advance_of_step h hstep
  obtain ⟨i, answer⟩ := a
  refine ⟨fun j hj => update_ne hadvance.began hj, fun name c hc => hadvance.kept.readable hc,
    fun name c _ hc => ?_,
    fun j hj => .inr ?_, fun j hj => .inr ?_⟩
  · obtain ⟨path, hpath, hobject⟩ := readable_eq_some.mp hc
    obtain ⟨j, hj, hpath', rfl⟩ := h'.objects path c hobject
    have hname : (entry j).name = name := String.toList_injective (objectKey_injective hpath' hpath)
    exact ⟨j, hj, congrArg (Entry.mk · (entry j).content) hname⟩
  · have hfits := h'.fits j
    change (Function.update s.calls i r j).verdict = _ at hj
    change (Function.update s.calls i r j).Fits sink (entry j) b at hfits
    rw [eq_returned_of_verdict hj] at hfits
    exact hfits
  · have hfits := h'.fits j
    change (Function.update s.calls i r j).verdict = _ at hj
    change (Function.update s.calls i r j).Fits sink (entry j) b at hfits
    rw [eq_conflict_of_verdict hj] at hfits
    exact hfits

/-- **The sink in a bucket is a map that is written once.** -/
theorem writesOnce (sink : SinkArea) (entry : ι → Entry String (List UInt8)) :
    WritesOnce (step sink entry) init (observe sink) entry := by
  have hempty (name : String) : readable sink (fun _ => none) name = none := by
    rw [Option.eq_none_iff_forall_ne_some]
    intro c hc
    obtain ⟨path, -, ⟨⟩⟩ := readable_eq_some.mp hc
  exact writesOnce_of_steps (Inv sink entry) inv_init ⟨hempty, fun _ => rfl⟩ (fun h hstep => inv_step h hstep)
    fun h hstep => observe_step h hstep

end StorageSink

/-- **Both sinks are maps that are written once**, whatever is written and in whatever order the calls go on,
fail or die. -/
theorem sinks_writeOnce (sink : SinkArea) (entry : ι → Entry String (List UInt8)) :
    WritesOnce (FileSink.step entry) FileSink.init FileSink.observe entry
      ∧ WritesOnce (StorageSink.step sink entry) StorageSink.init (StorageSink.observe sink) entry :=
  ⟨FileSink.writesOnce entry, StorageSink.writesOnce sink entry⟩

end Jasil.Audit
