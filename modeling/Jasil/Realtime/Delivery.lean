import Jasil.Realtime.Envelope

/-! # Delivering a hint
Both realtime backends encode a hint, decode what they encoded and call the handlers.

* **`HintHandlers.deliver`**: every handler is called, also after one that raises (`calls_deliver`).
* **`InProcessRealtime.notify`**, **`RedisRealtime.notify`**: what the caller sees, and what is delivered.
* **`deliver_alike_iff`**: the two deliver the same exactly for an envelope that is not over the default cap,
  since the one in the process decodes with that cap and not with its own. -/

namespace Jasil.Realtime

open PyJson

/-- What a delivery did. -/
structure Delivery (η : Type) where
  /-- The calls of the handlers, in order. -/
  calls : List (η × Str × Fields)
  /-- The handlers whose error was logged. -/
  failed : List η

variable {η : Type}

/-- Nothing was delivered. -/
def Delivery.none : Delivery η := ⟨[], []⟩

/-- The handlers of a backend, and which calls raise. -/
structure HintHandlers (η : Type) where
  handlers : List η
  raises : η → Str → Fields → Bool

/-- `HintHandlers.deliver`. -/
def HintHandlers.deliver (h : HintHandlers η) (key : Str) (hint : Fields) : Delivery η :=
  h.handlers.foldl (fun d handler =>
    { calls := d.calls ++ [(handler, key, hint)]
      failed := if h.raises handler key hint then d.failed ++ [handler] else d.failed }) .none

/-- What `notify` raises. -/
inductive NotifyError
  /-- The `ValueError` of `encode`. -/
  | refused (refusal : Refusal)
  | raised (error : Raised)

/-- `InProcessRealtime`. -/
structure InProcessRealtime (η : Type) where
  maxBytes : ℤ
  handlers : HintHandlers η

/-- `InProcessRealtime.notify`. The envelope is decoded with the default cap. -/
def InProcessRealtime.notify (r : InProcessRealtime η) (key hint : Obj) : Except NotifyError (Delivery η) :=
  match encode key hint r.maxBytes with
  | .error refusal => .error (.refused refusal)
  | .ok payload =>
    match decode (.bytes payload) defaultMaxEnvelopeBytes with
    | .error raised => .error (.raised raised)
    | .ok none => .ok .none
    | .ok (some (key, hint)) => .ok (r.handlers.deliver key hint)

/-- `RedisRealtime`, subscribed to its channel. -/
structure RedisRealtime (η : Type) where
  maxBytes : ℤ
  handlers : HintHandlers η

/-- `RedisRealtime._deliver`. An error ends the subscription, and is no error of the publisher. -/
def RedisRealtime.deliver (r : RedisRealtime η) (data : List UInt8) : Delivery η :=
  match decode (.bytes data) r.maxBytes with
  | .ok (some (key, hint)) => r.handlers.deliver key hint
  | .ok none => .none
  | .error _ => .none

/-- `RedisRealtime.notify`, with what the subscriber makes of the payload that is published. -/
def RedisRealtime.notify (r : RedisRealtime η) (key hint : Obj) : Except NotifyError (Delivery η) :=
  match encode key hint r.maxBytes with
  | .error refusal => .error (.refused refusal)
  | .ok payload => .ok (r.deliver payload)

/-- **Every handler is called once**, with the same key and the same hint. -/
theorem calls_deliver (h : HintHandlers η) (key : Str) (hint : Fields) :
    (h.deliver key hint).calls = h.handlers.map (·, key, hint) := by
  -- after some of the handlers, those were called
  have hfold (handlers : List η) (d : Delivery η) : (handlers.foldl (fun d handler =>
      { calls := d.calls ++ [(handler, key, hint)]
        failed := if h.raises handler key hint then d.failed ++ [handler] else d.failed : Delivery η }) d).calls
      = d.calls ++ handlers.map (·, key, hint) := by
    induction handlers generalizing d with
    | nil => exact (List.append_nil _).symm
    | cons handler handlers ih =>
      rw [List.foldl_cons, ih, List.map_cons, List.append_assoc]
      rfl
  exact hfold h.handlers .none

/-- **The two backends deliver the same**: both refuse, or both call every handler once with the key and with the
hint as JSON makes it. -/
def DeliverAlike (maxBytes : ℤ) (h : HintHandlers η) (key hint : Obj) : Prop :=
  (∃ refusal, (InProcessRealtime.mk maxBytes h).notify key hint = .error (.refused refusal)
    ∧ (RedisRealtime.mk maxBytes h).notify key hint = .error (.refused refusal))
  ∨ ∃ k fields local' remote, key = .str k ∧ normalise hint = .ok (.obj fields)
    ∧ (InProcessRealtime.mk maxBytes h).notify key hint = .ok local'
    ∧ (RedisRealtime.mk maxBytes h).notify key hint = .ok remote
    ∧ local'.calls = h.handlers.map (·, k, fields) ∧ remote.calls = h.handlers.map (·, k, fields)

/-- **The two backends deliver the same exactly when the envelope is within the default cap**, if there is one
and someone to call. -/
theorem deliver_alike_iff {maxBytes : ℤ} {h : HintHandlers η} {key hint : Obj} :
    DeliverAlike maxBytes h key hint ↔ h.handlers = []
      ∨ ∀ bytes, encode key hint maxBytes = .ok bytes → (bytes.length : ℤ) ≤ defaultMaxEnvelopeBytes := by
  cases hencode : encode key hint maxBytes with
  | error refusal =>
    refine iff_of_true (.inl ⟨refusal, ?_, ?_⟩) (.inr (by rintro _ ⟨⟩))
    · rw [InProcessRealtime.notify, hencode]
    · rw [RedisRealtime.notify, hencode]
  | ok bytes =>
    obtain ⟨k, fields, hkey, hnormal, hdecode⟩ := decode_encode hencode
    obtain ⟨-, -, -, -, -, -, -, -, -, -, hsize⟩ := encode_ok_iff.mp hencode
    have hremote : (RedisRealtime.mk maxBytes h).notify key hint = .ok (h.deliver k fields) := by
      have hdeliver : (RedisRealtime.mk maxBytes h).deliver bytes = h.deliver k fields := by
        rw [RedisRealtime.deliver, hdecode, if_neg (not_lt.mpr hsize)]
      rw [RedisRealtime.notify, hencode]
      exact congrArg Except.ok hdeliver
    -- the in-process backend reads under the default cap, whatever its own is
    by_cases hcap : defaultMaxEnvelopeBytes < bytes.length
    · have hlocal : (InProcessRealtime.mk maxBytes h).notify key hint = .ok .none := by
        rw [InProcessRealtime.notify, hencode]
        dsimp only
        rw [hdecode, if_pos hcap]
      rw [DeliverAlike, hlocal, hremote]
      constructor
      · rintro (⟨_, ⟨⟩, -⟩ | ⟨_, _, _, _, -, -, ⟨⟩, -, hcalls, -⟩)
        exact .inl (List.map_eq_nil_iff.mp hcalls.symm)
      · rintro (hnone | hwithin)
        · refine .inr ⟨k, fields, _, _, hkey, hnormal, rfl, rfl, ?_, calls_deliver h k fields⟩
          rw [hnone]
          rfl
        · exact absurd hcap (not_lt.mpr (hwithin bytes rfl))
    · have hlocal : (InProcessRealtime.mk maxBytes h).notify key hint = .ok (h.deliver k fields) := by
        rw [InProcessRealtime.notify, hencode]
        dsimp only
        rw [hdecode, if_neg hcap]
      refine iff_of_true (.inr ⟨k, fields, _, _, hkey, hnormal, hlocal, hremote, calls_deliver h k fields,
        calls_deliver h k fields⟩) (.inr ?_)
      rintro _ ⟨⟩
      exact not_lt.mp hcap

/-- A hint of one field, with this many letters in it. -/
def longHint (n : ℕ) : Obj := .dict [(.str [], .str (Str.ofChars (List.replicate n 'a')))]

/-- No letter is escaped. -/
theorem quote_letters (n : ℕ) :
    quote (Str.ofChars (List.replicate n 'a')) = Str.ofChars ('"' :: (List.replicate n 'a' ++ ['"'])) := by
  have hescape (n : ℕ) :
      (Str.ofChars (List.replicate n 'a')).flatMap escapePoint = Str.ofChars (List.replicate n 'a') := by
    induction n with
    | zero => rfl
    | succ n ih =>
      rw [List.replicate_succ, Str.ofChars_cons, List.flatMap_cons, ih]
      rfl
  rw [quote, hescape, Str.ofChars_cons, Str.ofChars_append]
  rfl

/-- What the envelope of a long hint begins with. -/
def longHead : List Char :=
  ['{', '"', 'v', '"', ':', '2', ',', '"', 'k', 'e', 'y', '"', ':', '"', 'k', '"', ',',
    '"', 'h', 'i', 'n', 't', '"', ':', '{', '"', '"', ':']

/-- The text of an envelope with a long hint. -/
theorem print_longHint (n : ℕ) :
    print compact (envelopeValue (Str.ofChars ['k']) [([], .str (Str.ofChars (List.replicate n 'a')))])
      = Str.ofChars (longHead ++ '"' :: (List.replicate n 'a' ++ ['"', '}', '}'])) := by
  simp only [envelopeValue, print, printFields, quote_letters, Str.ofChars_append, Str.ofChars_cons,
    List.append_assoc,
    List.cons_append]
  rfl

/-- The envelope of a long hint is a little longer than the hint. -/
theorem encode_longHint (n : ℕ) {maxBytes : ℤ} (h : (n : ℤ) + 32 ≤ maxBytes) :
    ∃ bytes, encode (.str (Str.ofChars ['k'])) (longHint n) maxBytes = .ok bytes ∧ bytes.length = n + 32 := by
  have hfields : toJsonFields [(.str [], .str (Str.ofChars (List.replicate n 'a')))]
      = .ok [([], .str (Str.ofChars (List.replicate n 'a')))] := by
    rw [toJsonFields, toJson, toJsonFields]
    rfl
  have hlength : (utf8 (longHead ++ '"' :: (List.replicate n 'a' ++ ['"', '}', '}']))).length = n + 32 := by
    rw [length_utf8]
    · rw [List.length_append, List.length_cons, List.length_append, List.length_replicate]
      show 28 + (n + 3 + 1) = n + 32
      omega
    · intro c hc
      rcases List.mem_append.mp hc with hhead | hrest
      · exact of_decide_eq_true (List.all_eq_true.mp (by decide : longHead.all (·.toNat < 128) = true) c hhead)
      · rcases List.mem_cons.mp hrest with rfl | hrest
        · decide
        · rcases List.mem_append.mp hrest with hletter | htail
          · rw [List.eq_of_mem_replicate hletter]
            decide
          · exact of_decide_eq_true (List.all_eq_true.mp
              (by decide : ['"', '}', '}'].all (·.toNat < 128) = true) c htail)
  refine ⟨_, encode_ok_iff.mpr ⟨_, _, _, _, rfl, by decide, rfl, hfields, print_longHint n, rfl, ?_⟩, hlength⟩
  rw [hlength]
  exact_mod_cast h

/-- **A hint may come through in production that a single process drops**: its envelope is over the default
cap. -/
theorem not_deliver_alike : ¬∀ (maxBytes : ℤ) (h : HintHandlers Unit) (key hint : Obj),
    DeliverAlike maxBytes h key hint := by
  intro hall
  have halike := hall 8192 ⟨[()], fun _ _ _ => false⟩ (.str (Str.ofChars ['k'])) (longHint 5000)
  obtain ⟨bytes, hencode, hlength⟩ : ∃ bytes, encode (.str (Str.ofChars ['k'])) (longHint 5000) 8192 = .ok bytes
      ∧ bytes.length = 5000 + 32 := encode_longHint 5000 (by decide)
  rcases deliver_alike_iff.mp halike with hnone | hwithin
  · cases hnone
  · have hsize := hwithin bytes hencode
    rw [hlength] at hsize
    exact absurd hsize (by decide)

end Jasil.Realtime
