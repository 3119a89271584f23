import Jasil.Mail.Smtplib

/-! # Mail over SMTP
One `send`: a session is opened, the envelope is offered, and the message goes out; what fails on the way is an
error that says whether the message may have been delivered.

* **`failure`**: an error of `smtplib` as a `MailError`.
* **`SmtpMail.deliver`**: the three stages, each of which classifies what fails in it.
* **`send_honest_iff`**: when the caller is told the truth. -/

namespace Jasil.Mail

/-! ## Errors -/

/-- How far a send got. -/
inductive Stage
  | connecting
  | session
  | data
  deriving DecidableEq

/-- `_DEADLINE_EXCEEDED`. -/
def deadlineExceeded : String := "SMTP send exceeded its overall deadline"

/-- `_failure`. -/
def failure (error : SmtpError) (stage : Stage) : MailError :=
  match error with
  | .authentication code =>
    { message := s!"SMTP authentication failed (status {code})", status := some code, kind := .authFailed }
  | .recipientsRefused refused =>
    let codes := (refused.entries.map fun e => e.2.code).toFinset.sort (· ≤ ·)
    { message := "SMTP server refused the recipients (status " ++ ", ".intercalate (codes.map toString) ++ ")"
      status := codes.head?
      kind := .recipientRefused }
  | .senderRefused code =>
    { message := s!"SMTP server refused the sender (status {code})", status := some code,
      kind := .senderRefused }
  | .connect code =>
    { message := s!"SMTP server refused the connection (status {code})", status := some code,
      kind := .unreachable }
  | .data code =>
    { message := s!"SMTP server rejected the message (status {code})", status := some code,
      kind := .messageRejected }
  | .helo code | .response code =>
    { message := s!"SMTP server refused a command (status {code})", status := some code }
  | .notSupported => { message := "SMTP server lacks a required feature", kind := .unsupported }
  | error =>
    if stage = .connecting then
      match error with
      | .ssl => { message := "TLS negotiation with the SMTP server failed", kind := .tlsFailed }
      | _ => { message := "SMTP server unreachable", kind := .unreachable }
    else
      { message := "SMTP connection lost", kind := .connectionLost, deliveryUnknown := decide (stage = .data) }

/-! ## The message -/

/-- A message. -/
structure MailMessage where
  «to» : List Text
  subject : Text
  text : Option Text
  html : Option Text
  replyTo : Option Text
  fromAddress : Option Text
  listUnsubscribe : Option Text
  messageId : Option Text

/-- **A built message**: it has a recipient. -/
structure Mime where
  messageId : Text
  sender : Text
  recipients : List Text
  body : Bytes
  recipients_ne : recipients ≠ []

/-- What `build_mime` makes of a message with valid recipients. -/
structure Builder where
  /-- The address of a recipient. -/
  parseAddress : Text → Option Text
  /-- The message id, the sender and the bytes of the message, when the rest of it is valid. -/
  build : MailMessage → Text → List Text → Option (Text × Text × Bytes)

/-- `build_mime`. -/
def buildMime (builder : Builder) (message : MailMessage) (sender : Text) : Option Mime :=
  match message.«to».mapM builder.parseAddress with
  | none | some [] => none
  | some (recipient :: recipients) =>
    (builder.build message sender (recipient :: recipients)).map fun (messageId, sender, body) =>
      ⟨messageId, sender, recipient :: recipients, body, List.cons_ne_nil _ _⟩

/-- Dots at the start of a line are doubled. -/
def doubleDots : Bool → Bytes → Bytes
  | _, [] => []
  | start, b :: bytes => (if start = true ∧ b = 46 then [46, 46] else [b]) ++ doubleDots (b = 10) bytes

/-- `_data_payload`. -/
def dataPayload (body : Bytes) : Bytes :=
  let payload := doubleDots true body
  (if [13, 10] <:+ payload then payload else payload ++ [13, 10]) ++ [46, 13, 10]

/-! ## A send -/

/-- The refused recipients, and what the server answered. -/
abbrev Refused := FiniteMap Text Reply

/-- `SmtpMail`: credentials are never sent without TLS. -/
structure SmtpMail where
  host : Text
  implicitTls : Bool
  tls : Bool
  credentials : Bool
  fromAddress : Text
  credentials_tls : credentials = true → tls = true
  implicitTls_tls : implicitTls = true → tls = true

variable (network : Network)

/-- `_arm`. -/
def arm : Smtp Unit := do
  let c ← get
  update fun c => { c with looks := c.looks + 1 }
  if network.late c.looks then throw (.mail { message := deadlineExceeded, kind := .deadline }) else pure ()

/-- What fails in a stage: the deadline, or what the server did. -/
def handled (stage : Stage) : Raised → Raised
  | .smtp error => .mail (if network.lateAtFailure = true then
      { message := deadlineExceeded, kind := .deadline, deliveryUnknown := decide (stage = .data) }
    else failure error stage)
  | raised => raised

/-- The steps of a stage. -/
def staged {α : Type} (stage : Stage) (steps : Smtp α) : Smtp α :=
  tryCatch steps fun raised => throw (handled network stage raised)

/-- The loop over the recipients. -/
def offerRecipients : List Text → Refused → Smtp Refused
  | [], refused => pure refused
  | recipient :: recipients, refused => do
    let reply ← docmd network (.rcpt recipient)
    let refused : Refused :=
      if reply.code = 250 ∨ reply.code = 251 then refused else refused.insert recipient reply
    if reply.code = 421 then throw (.smtp (.recipientsRefused refused)) else offerRecipients recipients refused

/-- `_envelope`. -/
def envelope (mime : Mime) : Smtp Refused := do
  ehloOrHeloIfNeeded network
  let c ← get
  let size := if c.doesEsmtp && hasExtn "size" c then some mime.body.length else none
  let reply ← docmd network (.mail mime.sender size)
  if reply.code = 250 then do
    let refused ← offerRecipients network mime.recipients ∅
    if refused.keys.length = mime.recipients.length then throw (.smtp (.recipientsRefused refused))
    else return refused
  else throw (.smtp (.senderRefused reply.code))

namespace SmtpMail

variable (mail : SmtpMail)

/-- `_connect_hosts`. -/
def connectHosts : List Text := if mail.tls then [mail.host] else network.addresses

/-- The loop of `_connect`. -/
def connectFirst : List Text → Smtp Reply
  | [] => throw (.mail {
      message := "SMTP relay no longer resolves to a private address; cleartext refused", kind := .unreachable })
  | [host] => do
    arm network
    connectTo network host mail.implicitTls
  | host :: hosts => do
    arm network
    tryCatch (connectTo network host mail.implicitTls) fun
      | .smtp _ => do
        close
        connectFirst hosts
      | raised => throw raised

/-- The session is opened. -/
def openSession : Smtp Unit := do
  let reply ← mail.connectFirst network (mail.connectHosts network)
  if reply.code = 220 then
    if mail.tls && !mail.implicitTls then do
      arm network
      let _ ← ehlo network
      let c ← get
      if hasExtn "starttls" c then do
        arm network
        starttls network
        let _ ← ehlo network
        pure ()
      else throw (.mail { message := "SMTP server does not offer STARTTLS", kind := .unsupported })
    else pure ()
  else throw (.smtp (.connect reply.code))

/-- `_login`. -/
def logIn : Smtp Unit := tryCatch (login network) fun
  | .smtp .plain => throw (.mail {
      message := "SMTP server offers no supported authentication mechanism", kind := .unsupported })
  | raised => throw raised

/-- The message is offered, until the server asks for it. -/
def offer (mime : Mime) : Smtp Refused := do
  (if mail.credentials then arm network >>= fun _ => logIn network else pure () : Smtp Unit)
  arm network
  let refused ← envelope network mime
  arm network
  let reply ← docmd network .data
  if reply.code = 354 then return refused else throw (.smtp (.data reply.code))

/-- The message is sent. -/
def transfer (mime : Mime) : Smtp Unit := do
  let reply ← docmd network (.payload (dataPayload mime.body))
  if reply.code = 250 then pure () else throw (.smtp (.data reply.code))

/-- What `_deliver` does before it quits. -/
def stages (mime : Mime) : Smtp Refused := do
  staged network .connecting (mail.openSession network)
  let refused ← staged network .session (mail.offer network mime)
  staged network .data (transfer network mime)
  return refused

/-- `_deliver`: whatever happened, the connection is closed. -/
def deliver (mime : Mime) : Smtp Refused := Failing.call fun c =>
  let (result, c) := (mail.stages network mime).on c
  (result, ((docmd network .quit).on c).2)

end SmtpMail

/-- What a send that succeeds reports. -/
structure Sent where
  messageId : Text
  refused : Refused

/-- `SmtpMail.send`. -/
def SmtpMail.send (mail : SmtpMail) (builder : Builder) (leaseLost : Bool) (message : MailMessage) : Smtp Sent :=
  if leaseLost then throw (.mail { message := "Job lease lost; send abandoned", kind := .leaseLost })
  else
    match buildMime builder message (message.fromAddress.getD mail.fromAddress) with
    | none => throw .valueError
    | some mime => tryCatch (mail.deliver network mime >>= fun refused => pure ⟨mime.messageId, refused⟩) fun
      | .mail error => throw (.mail { error with messageId := some mime.messageId })
      | raised => throw raised

/-! ## What a caller knows -/

/-- The recipient was refused: its `RCPT` was answered, with neither 250 nor 251. -/
def Exchange.Refuses (e : Exchange) (recipient : Text) : Prop :=
  e.command = .rcpt recipient ∧ ∃ code ∈ e.code, code ≠ 250 ∧ code ≠ 251

/-- The recipient was accepted. -/
def Exchange.Accepts (e : Exchange) (recipient : Text) : Prop :=
  e.command = .rcpt recipient ∧ ∃ code ∈ e.code, code = 250 ∨ code = 251

/-- What is read begins with `250`, whatever follows. -/
def Exchange.Begins250 (e : Exchange) : Prop := ∃ received ∈ e.received, [50, 53, 48] <+: received.bytes

/-- Something of the message was sent. -/
def Exchange.Transfers (e : Exchange) : Prop := ∃ bytes, e.command = .payload bytes

/-- The server accepted the message: its answer to the complete data begins with `250`. -/
def Accepted (transcript : List Exchange) : Prop := ∃ e ∈ transcript, e.Transfers ∧ e.Begins250

/-- The caller is not told that the message was not sent. -/
def MaybeSent (result : Except Raised Sent) : Prop :=
  (∃ sent, result = .ok sent) ∨ ∃ error, result = .error (.mail error) ∧ error.deliveryUnknown = true

/-- **What a caller is told is true**: a message that was accepted is never reported as not sent, the refused
recipients are those that were refused, and nothing is sent when all were. -/
structure Honest (result : Except Raised Sent) (transcript : List Exchange) : Prop where
  accepted : Accepted transcript → MaybeSent result
  refused : ∀ sent, result = .ok sent → ∀ recipient,
    recipient ∈ sent.refused ↔ ∃ e ∈ transcript, e.Refuses recipient
  allRefused : (∀ e ∈ transcript, ∀ recipient, e.command = .rcpt recipient → e.Refuses recipient) →
    (∃ raised, result = .error raised) ∧ ∀ e ∈ transcript, ¬ e.Transfers

/-- The condition on what the server answers: a reply to the message that begins with `250` ends with a line
of that code, or breaks off, unless the deadline has passed; and when the message is asked for, no address was
given twice or some recipient was accepted. -/
def Regular (network : Network) (recipients : List Text) (transcript : List Exchange) : Prop :=
  (∀ e ∈ transcript, e.Transfers → e.Begins250 →
    e.code = some 250 ∨ e.reply = .cut ∨ network.lateAtFailure = true) ∧
  ∀ e ∈ transcript, e.command = .data → e.code = some 354 →
    recipients.Nodup ∨ ∃ e' ∈ transcript, ∃ recipient, e'.Accepts recipient

/-! ## Offering the recipients -/

section Offer

variable {network} {c c' : Connection} {recipients : List Text} {refused refused' : Refused}
  {result : Except Raised Refused} {e : Exchange} {recipient : Text}

/-- An answer refuses or accepts. -/
theorem refuses_or_accepts {code : ℤ} (hcommand : e.command = .rcpt recipient) (hcode : e.code = some code) :
    if code = 250 ∨ code = 251 then e.Accepts recipient ∧ ¬ e.Refuses recipient
    else e.Refuses recipient ∧ ¬ e.Accepts recipient := by
  split
  · rename_i h
    refine ⟨⟨hcommand, code, hcode, h⟩, ?_⟩
    rintro ⟨-, code', hcode', hne, hne'⟩
    obtain rfl := Option.some.inj (hcode.symm.trans hcode')
    exact h.elim hne hne'
  · rename_i h
    push Not at h
    refine ⟨⟨hcommand, code, hcode, h⟩, ?_⟩
    rintro ⟨-, code', hcode', hor⟩
    obtain rfl := Option.some.inj (hcode.symm.trans hcode')
    exact hor.elim h.1 h.2

/-- An exchange about one recipient refuses no other. -/
theorem Exchange.Refuses.eq {recipient' : Text} (hcommand : e.command = .rcpt recipient)
    (h : e.Refuses recipient') : recipient' = recipient :=
  (Command.rcpt.inj (hcommand.symm.trans h.1)).symm

/-- **Offering the recipients**: one exchange each, and those that were refused are collected. -/
theorem offerRecipients_spec (h : (offerRecipients network recipients refused).on c = (result, c')) :
    ∃ added, c'.transcript = c.transcript ++ added ∧ (∀ e ∈ added, ∃ recipient, e.command = .rcpt recipient) ∧
      ∀ refused', result = .ok refused' →
        added.map Exchange.command = recipients.map Command.rcpt ∧ (∀ e ∈ added, ∃ code, e.code = some code) ∧
          ∀ recipient, recipient ∈ refused' ↔ recipient ∈ refused ∨ ∃ e ∈ added, e.Refuses recipient := by
  induction recipients generalizing refused c with
  | nil =>
    obtain ⟨rfl, rfl⟩ := Prod.mk.inj h
    refine ⟨[], (List.append_nil _).symm, by rintro _ ⟨⟩, fun refused' hrefused => ?_⟩
    obtain rfl := Except.ok.inj hrefused
    refine ⟨rfl, by rintro _ ⟨⟩, fun recipient => (or_iff_left ?_).symm⟩
    rintro ⟨_, ⟨⟩, _⟩
  | cons first recipients ih =>
    rw [offerRecipients, Failing.on_bind] at h
    rcases hrcpt : (docmd network (.rcpt first)).on c with ⟨answer, c''⟩
    rw [hrcpt] at h
    cases answer with
    | error raised =>
      obtain ⟨rfl, rfl⟩ := Prod.mk.inj h
      obtain ⟨added, hadded, hkind⟩ := docmd_error hrcpt
      exact ⟨added, hadded, fun e he => ⟨first, (hkind e he).1⟩, by rintro _ ⟨⟩⟩
    | ok reply =>
      obtain ⟨-, e, hcommand, hcode, htranscript⟩ := docmd_ok hrcpt
      dsimp only at h
      have hanswer := refuses_or_accepts hcommand hcode
      by_cases hclosing : reply.code = 421
      · -- the server closes the session
        rw [if_pos hclosing] at h
        obtain ⟨rfl, rfl⟩ := Prod.mk.inj h
        refine ⟨[e], htranscript, fun e' he' => ⟨first, ?_⟩, by rintro _ ⟨⟩⟩
        rw [List.mem_singleton.mp he']
        exact hcommand
      · rw [if_neg hclosing] at h
        obtain ⟨added, hadded, hkind, hok⟩ := ih h
        refine ⟨e :: added, ?_, ?_, ?_⟩
        · rw [hadded, htranscript, List.append_assoc, List.singleton_append]
        · intro e' he'
          rcases List.mem_cons.mp he' with rfl | hmem
          · exact ⟨first, hcommand⟩
          · exact hkind e' hmem
        · intro refused' hrefused'
          obtain ⟨hcommands, hcodes, hmem⟩ := hok refused' hrefused'
          refine ⟨?_, ?_, fun recipient => ?_⟩
          · rw [List.map_cons, List.map_cons, hcommand, hcommands]
          · intro e' he'
            rcases List.mem_cons.mp he' with rfl | he'
            · exact ⟨reply.code, hcode⟩
            · exact hcodes e' he'
          · rw [hmem, List.exists_mem_cons_iff, ← or_assoc]
            refine or_congr_left ?_
            split at hanswer
            · rename_i haccepted
              rw [if_pos haccepted]
              refine (or_iff_left fun hrefuses => ?_).symm
              obtain rfl := hrefuses.eq hcommand
              exact hanswer.2 hrefuses
            · rename_i hrefused
              rw [if_neg hrefused, AList.mem_insert, or_comm]
              refine or_congr_right ⟨?_, fun hrefuses => hrefuses.eq hcommand⟩
              rintro rfl
              exact hanswer.1

/-- What is sent before the recipients are offered. -/
def Command.Early : Command → Prop
  | .rcpt _ | .data | .payload _ => False
  | _ => True

/-- No early command transfers a message. -/
theorem Command.Early.not_transfers (h : e.command.Early) : ¬ e.Transfers := by
  rintro ⟨bytes, hcommand⟩
  rw [hcommand] at h
  exact h

/-- `DATA` is no early command. -/
theorem Command.Early.ne_data (h : e.command.Early) : e.command ≠ .data := by
  intro hcommand
  rw [hcommand] at h
  exact h

/-- Nor is `RCPT`. -/
theorem Command.Early.ne_rcpt (h : e.command.Early) : e.command ≠ .rcpt recipient := by
  intro hcommand
  rw [hcommand] at h
  exact h

/-- **What offering leaves when it succeeds**: every recipient was answered, those refused are known, and
someone was accepted unless an address was given twice. -/
structure Offered (recipients : List Text) (refused : Refused) (added : List Exchange) : Prop where
  answered : ∀ e ∈ added, ∀ recipient, e.command = .rcpt recipient → ∃ code, e.code = some code
  refused : ∀ recipient, recipient ∈ refused ↔ ∃ e ∈ added, e.Refuses recipient
  accepted : recipients.Nodup → ∃ e ∈ added, ∃ recipient, e.Accepts recipient

/-- Not all of several different recipients were refused. -/
theorem exists_accepts {added : List Exchange}
    (hcommands : added.map Exchange.command = recipients.map Command.rcpt)
    (hcodes : ∀ e ∈ added, ∃ code, e.code = some code)
    (hmem : ∀ recipient, recipient ∈ refused ↔ ∃ e ∈ added, e.Refuses recipient)
    (hne : refused.keys.length ≠ recipients.length) (hnodup : recipients.Nodup) :
    ∃ e ∈ added, ∃ recipient, e.Accepts recipient := by
  by_contra hnone
  push Not at hnone
  refine hne ?_
  have hkeys : refused.keys.toFinset = recipients.toFinset := by
    ext recipient
    rw [List.mem_toFinset, List.mem_toFinset, ← AList.mem_keys, hmem]
    constructor
    · rintro ⟨e, he, hrefuses⟩
      have hcommand : e.command ∈ recipients.map Command.rcpt := hcommands ▸ List.mem_map_of_mem he
      obtain ⟨recipient', hrecipient, heq⟩ := List.mem_map.mp hcommand
      obtain rfl := Command.rcpt.inj (heq.trans hrefuses.1)
      exact hrecipient
    · intro hrecipient
      have hcommand : Command.rcpt recipient ∈ added.map Exchange.command :=
        hcommands ▸ List.mem_map_of_mem hrecipient
      obtain ⟨e, he, heq⟩ := List.mem_map.mp hcommand
      obtain ⟨code, hcode⟩ := hcodes e he
      have hanswer := refuses_or_accepts heq hcode
      split at hanswer
      · exact absurd hanswer.1 (hnone e he recipient)
      · exact ⟨e, he, hanswer.1⟩
  calc refused.keys.length = refused.keys.toFinset.card := (List.toFinset_card_of_nodup refused.keys_nodup).symm
    _ = recipients.toFinset.card := by rw [hkeys]
    _ = recipients.length := List.toFinset_card_of_nodup hnodup

/-- Only the exchanges about recipients matter. -/
theorem Offered.congr {added added' : List Exchange} (h : Offered recipients refused added)
    (hsame : ∀ e recipient, e.command = .rcpt recipient → (e ∈ added' ↔ e ∈ added)) :
    Offered recipients refused added' where
  answered e he recipient hcommand := h.answered e ((hsame e recipient hcommand).mp he) recipient hcommand
  refused recipient := by
    rw [h.refused]
    constructor
    · rintro ⟨e, he, hrefuses⟩
      exact ⟨e, (hsame e recipient hrefuses.1).mpr he, hrefuses⟩
    · rintro ⟨e, he, hrefuses⟩
      exact ⟨e, (hsame e recipient hrefuses.1).mp he, hrefuses⟩
  accepted hnodup := by
    obtain ⟨e, he, recipient, haccepts⟩ := h.accepted hnodup
    exact ⟨e, (hsame e recipient haccepts.1).mpr he, recipient, haccepts⟩

/-- The recipients are offered after something else was sent. -/
theorem Offered.prepend {before added : List Exchange} (h : Offered recipients refused added)
    (hbefore : ∀ e ∈ before, e.command.Early) : Offered recipients refused (before ++ added) := by
  refine h.congr fun e recipient hcommand => ?_
  rw [List.mem_append]
  exact or_iff_right fun hmem => absurd hcommand (hbefore e hmem).ne_rcpt

/-- Something else is sent afterwards. -/
theorem Offered.append {after added : List Exchange} (h : Offered recipients refused added)
    (hafter : ∀ e ∈ after, ∀ recipient, e.command ≠ .rcpt recipient) :
    Offered recipients refused (added ++ after) := by
  refine h.congr fun e recipient hcommand => ?_
  rw [List.mem_append]
  exact or_iff_left fun hmem => absurd hcommand (hafter e hmem recipient)

/-- What the exchanges of the envelope look like, and what it returns. -/
def IsEnvelope (recipients : List Text) (result : Except Raised Refused) (added : List Exchange) : Prop :=
  (∀ e ∈ added, ¬ e.Transfers ∧ e.command ≠ .data) ∧ ∀ refused, result = .ok refused
  → Offered recipients refused added

/-- A session that ends before the envelope has named nobody. -/
theorem IsEnvelope.of_early {raised : Raised} {added : List Exchange} (h : ∀ e ∈ added, e.command.Early) :
    IsEnvelope recipients (.error raised) added :=
  ⟨fun e he => ⟨(h e he).not_transfers, (h e he).ne_data⟩, by rintro _ ⟨⟩⟩

/-- Early commands may come before an envelope. -/
theorem IsEnvelope.prepend {before added : List Exchange} (h : IsEnvelope recipients result added)
    (hbefore : ∀ e ∈ before, e.command.Early) : IsEnvelope recipients result (before ++ added) := by
  refine ⟨List.forall_mem_append.mpr ⟨fun e he => ?_, h.1⟩, fun refused hresult => ?_⟩
  · exact ⟨(hbefore e he).not_transfers, (hbefore e he).ne_data⟩
  · exact (h.2 refused hresult).prepend hbefore

/-- Naming recipients transfers nothing. -/
theorem rcpt_only {added : List Exchange} (h : ∀ e ∈ added, ∃ recipient, e.command = .rcpt recipient) :
    ∀ e ∈ added, ¬ e.Transfers ∧ e.command ≠ .data := by
  intro e he
  obtain ⟨recipient, hcommand⟩ := h e he
  constructor
  · rintro ⟨bytes, hbytes⟩
    cases hcommand.symm.trans hbytes
  · intro hdata
    cases hcommand.symm.trans hdata

/-- **A step before the envelope**: what holds of the exchanges from then on holds with those of the step too. -/
theorem after_early {Q : Except Raised Refused → Connection → List Exchange → Prop}
    (herror : ∀ raised c' added, (∀ e ∈ added, e.command.Early) → Q (.error raised) c' added)
    (hprepend : ∀ result c' before added, (∀ e ∈ before, e.command.Early) → Q result c' added →
      Q result c' (before ++ added))
    {α : Type} {p : Smtp α} {f : α → Smtp Refused} (hp : OnlySends Command.Early p)
    (hf : ∀ a c result c', (f a).on c = (result, c') →
      ∃ added, c'.transcript = c.transcript ++ added ∧ Q result c' added)
    (h : (p >>= f).on c = (result, c')) : ∃ added, c'.transcript = c.transcript ++ added
    ∧ Q result c' added := by
  rcases Failing.on_bind_cases h with ⟨raised, hrun, rfl⟩ | ⟨a, c₁, hrun, h⟩
  · obtain ⟨before, hbefore, hkind⟩ := hp.run hrun
    exact ⟨before, hbefore, herror raised c' before hkind⟩
  · obtain ⟨before, hbefore, hkind⟩ := hp.run hrun
    obtain ⟨added, hadded, hq⟩ := hf a c₁ result c' h
    exact ⟨before ++ added, by rw [hadded, hbefore, List.append_assoc], hprepend result c' before added hkind hq⟩

/-- **The envelope**: nothing of the message is sent, and the message is not asked for. -/
theorem envelope_spec {mime : Mime} (h : (envelope network mime).on c = (result, c')) :
    ∃ added, c'.transcript = c.transcript ++ added ∧ IsEnvelope mime.recipients result added := by
  have herror (raised : Raised) (_ : Connection) (added : List Exchange)
      (hearly : ∀ e ∈ added, e.command.Early) :
      IsEnvelope mime.recipients (.error raised) added := IsEnvelope.of_early hearly
  have hprepend (result : Except Raised Refused) (_ : Connection) (before added : List Exchange)
      (hearly : ∀ e ∈ before, e.command.Early) (hq : IsEnvelope mime.recipients result added) :
      IsEnvelope mime.recipients result (before ++ added) := hq.prepend hearly
  refine after_early herror hprepend (OnlySends.ehloOrHeloIfNeeded trivial trivial) (fun _ c result c' h => ?_) h
  refine after_early herror hprepend OnlySends.get (fun _ c result c' h => ?_) h
  refine after_early herror hprepend (@OnlySends.docmd _ Command.Early (.mail _ _) trivial)
    (fun reply c result c' h => ?_) h
  split at h
  · rcases Failing.on_bind_cases h with ⟨raised, hoffer, rfl⟩ | ⟨refused, c₁, hoffer, h⟩
    · obtain ⟨added, hadded, hkind, -⟩ := offerRecipients_spec hoffer
      exact ⟨added, hadded, rcpt_only hkind, by rintro _ ⟨⟩⟩
    · obtain ⟨added, hadded, hkind, hok⟩ := offerRecipients_spec hoffer
      obtain ⟨hcommands, hcodes, hmem⟩ := hok refused rfl
      split at h
      · obtain ⟨rfl, rfl⟩ := Prod.mk.inj h
        exact ⟨added, hadded, rcpt_only hkind, by rintro _ ⟨⟩⟩
      · rename_i hne
        obtain ⟨rfl, rfl⟩ := Prod.mk.inj h
        refine ⟨added, hadded, rcpt_only hkind, fun refused' hresult => ?_⟩
        obtain rfl := Except.ok.inj hresult
        have hmem' (recipient : Text) : recipient ∈ refused ↔ ∃ e ∈ added, e.Refuses recipient := by
          rw [hmem]
          exact or_iff_right (AList.notMem_empty recipient)
        exact ⟨fun e he _ _ => hcodes e he, hmem', exists_accepts hcommands hcodes hmem' hne⟩
  · obtain ⟨rfl, rfl⟩ := Prod.mk.inj h
    exact ⟨[], (List.append_nil _).symm, IsEnvelope.of_early (by rintro _ ⟨⟩)⟩

/-- Arming the deadline sends nothing. -/
theorem onlySends_arm {P : Command → Prop} : OnlySends P (arm network) :=
  OnlySends.bind OnlySends.get fun _ => OnlySends.bind (OnlySends.update fun _ => rfl) fun _ =>
    OnlySends.ite OnlySends.throw OnlySends.pure

/-- Looking at the clock sends nothing. -/
theorem transcript_arm {armed : Except Raised Unit} (h : (arm network).on c = (armed, c')) :
    c'.transcript = c.transcript := by
  obtain ⟨added, hadded, hnone⟩ := (@onlySends_arm network fun _ => False).run h
  rw [hadded, List.eq_nil_iff_forall_not_mem.mpr hnone, List.append_nil]

/-- Logging in sends early commands only. -/
theorem onlySends_logIn : OnlySends Command.Early (SmtpMail.logIn network) := by
  refine OnlySends.tryCatch (OnlySends.login trivial trivial (fun _ => trivial) trivial) fun raised => ?_
  split
  · exact OnlySends.throw
  · exact OnlySends.throw

/-- What the exchanges of a session look like, and how it ends: the server has asked for the message, or not. -/
structure IsOffer (recipients : List Text) (result : Except Raised Refused) (c' : Connection)
    (added : List Exchange) : Prop where
  transfers : ∀ e ∈ added, ¬ e.Transfers
  error : ∀ raised, result = .error raised → ∀ e ∈ added, e.command = .data → e.code ≠ some 354
  ok : ∀ refused, result = .ok refused → c'.isOpen = true
    ∧ (∃ e ∈ added, e.command = .data ∧ e.code = some 354) ∧
    Offered recipients refused added

/-- An offer that ends before the data has transferred nothing. -/
theorem IsOffer.of_error {raised : Raised} {added : List Exchange}
    (h : ∀ e ∈ added, ¬ e.Transfers ∧ e.command ≠ .data) : IsOffer recipients (.error raised) c' added where
  transfers e he := (h e he).1
  error _ _ e he hdata := absurd hdata (h e he).2
  ok := by rintro _ ⟨⟩

/-- Early commands may come before an offer. -/
theorem IsOffer.prepend {before added : List Exchange} (h : IsOffer recipients result c' added)
    (hbefore : ∀ e ∈ before, e.command.Early) : IsOffer recipients result c' (before ++ added) where
  transfers := List.forall_mem_append.mpr ⟨fun e he => (hbefore e he).not_transfers, h.transfers⟩
  error raised hresult := List.forall_mem_append.mpr
    ⟨fun e he hdata => absurd hdata (hbefore e he).ne_data, h.error raised hresult⟩
  ok refused hresult := by
    obtain ⟨hopen, ⟨e, he, hdata⟩, hoffered⟩ := h.ok refused hresult
    exact ⟨hopen, ⟨e, List.mem_append_right _ he, hdata⟩, hoffered.prepend hbefore⟩

/-- **A session**: nothing of the message is sent, and the recipients were offered when the server asks for
it. -/
theorem offer_spec {mail : SmtpMail} {mime : Mime} (h : (mail.offer network mime).on c = (result, c')) :
    ∃ added, c'.transcript = c.transcript ++ added ∧ IsOffer mime.recipients result c' added := by
  have herror (raised : Raised) (c' : Connection) (added : List Exchange)
      (hearly : ∀ e ∈ added, e.command.Early) :
      IsOffer mime.recipients (.error raised) c' added :=
    IsOffer.of_error fun e he => ⟨(hearly e he).not_transfers, (hearly e he).ne_data⟩
  have hprepend (result : Except Raised Refused) (c' : Connection) (before added : List Exchange)
      (hearly : ∀ e ∈ before, e.command.Early) (hq : IsOffer mime.recipients result c' added) :
      IsOffer mime.recipients result c' (before ++ added) := hq.prepend hearly
  have hlogIn : OnlySends Command.Early
      (if mail.credentials then arm network >>= fun _ => SmtpMail.logIn network else pure () : Smtp Unit) :=
    OnlySends.ite (OnlySends.bind onlySends_arm fun _ => onlySends_logIn) OnlySends.pure
  refine after_early herror hprepend hlogIn (fun _ c result c' h => ?_) h
  refine after_early herror hprepend onlySends_arm (fun _ c result c' h => ?_) h
  -- the envelope, and then the server is asked for the message
  rcases Failing.on_bind_cases h with ⟨raised, henvelope, rfl⟩ | ⟨refused, c₁, henvelope, h⟩
  · obtain ⟨added, hadded, hquiet, -⟩ := envelope_spec henvelope
    exact ⟨added, hadded, IsOffer.of_error hquiet⟩
  obtain ⟨offered, hoffered, hquiet, hok⟩ := envelope_spec henvelope
  rcases Failing.on_bind_cases h with ⟨raised, harm, rfl⟩ | ⟨_, c₂, harm, h⟩
  · exact ⟨offered, (transcript_arm harm).trans hoffered, IsOffer.of_error hquiet⟩
  rw [← transcript_arm harm] at hoffered
  rcases Failing.on_bind_cases h with ⟨raised, hdata, rfl⟩ | ⟨reply, c₃, hdata, h⟩
  · obtain ⟨added, hadded, hkind⟩ := docmd_error hdata
    refine ⟨offered ++ added, by rw [hadded, hoffered, List.append_assoc], ?_, fun _ _ => ?_, by rintro _ ⟨⟩⟩
    · refine List.forall_mem_append.mpr ⟨fun e he => (hquiet e he).1, fun e he => ?_⟩
      rintro ⟨bytes, hbytes⟩
      cases (hkind e he).1.symm.trans hbytes
    · refine List.forall_mem_append.mpr ⟨fun e he h => absurd h (hquiet e he).2, fun e he _ => ?_⟩
      rw [(hkind e he).2]
      rintro ⟨⟩
  obtain ⟨hopen, e, hcommand, hcode, htranscript⟩ := docmd_ok hdata
  rw [hoffered, List.append_assoc] at htranscript
  have hlast : ¬ e.Transfers := by
    rintro ⟨bytes, hbytes⟩
    cases hcommand.symm.trans hbytes
  have hquiet' : ∀ e' ∈ offered ++ [e], ¬ e'.Transfers :=
    List.forall_mem_append.mpr ⟨fun e' he' => (hquiet e' he').1, List.forall_mem_singleton.mpr hlast⟩
  split at h
  · rename_i hgo
    obtain ⟨rfl, rfl⟩ := Prod.mk.inj h
    refine ⟨offered ++ [e], htranscript, hquiet', by rintro _ ⟨⟩, fun refused' hresult => ?_⟩
    obtain rfl := Except.ok.inj hresult
    refine ⟨hopen, ⟨e, List.mem_append_right _ List.mem_cons_self, hcommand, hgo ▸ hcode⟩, ?_⟩
    refine (hok refused rfl).append (List.forall_mem_singleton.mpr fun recipient hrcpt => ?_)
    cases hcommand.symm.trans hrcpt
  · rename_i hnot
    obtain ⟨rfl, rfl⟩ := Prod.mk.inj h
    refine ⟨offered ++ [e], htranscript, hquiet', fun _ _ => ?_, by rintro _ ⟨⟩⟩
    refine List.forall_mem_append.mpr ⟨fun e' he' h => absurd h (hquiet e' he').2,
      List.forall_mem_singleton.mpr fun _ h => ?_⟩
    exact hnot (Option.some.inj (hcode.symm.trans h))

end Offer

/-! ## A delivery -/

section Deliver

variable {network} {c c' : Connection} {mail : SmtpMail} {mime : Mime}

/-- A stage ends as its steps do, or with the error of the stage. -/
theorem staged_cases {α : Type} {stage : Stage} {steps : Smtp α} {result : Except Raised α}
    (h : (staged network stage steps).on c = (result, c')) :
    (∃ raised, steps.on c = (.error raised, c') ∧ result = .error (handled network stage raised)) ∨
      ∃ a, steps.on c = (.ok a, c') ∧ result = .ok a := by
  rw [staged, Failing.on_tryCatch] at h
  rcases hsteps : steps.on c with ⟨first, c₁⟩
  rw [hsteps] at h
  cases first with
  | error raised =>
    obtain ⟨rfl, rfl⟩ := Prod.mk.inj h
    exact Or.inl ⟨raised, rfl, rfl⟩
  | ok a =>
    obtain ⟨rfl, rfl⟩ := Prod.mk.inj h
    exact Or.inr ⟨a, rfl, rfl⟩

/-- Connecting sends early commands only. -/
theorem onlySends_connectFirst (hosts : List Text) :
    OnlySends Command.Early (mail.connectFirst network hosts) := by
  induction hosts with
  | nil => exact OnlySends.throw
  | cons host hosts ih =>
    have hconnect : OnlySends Command.Early (connectTo network host mail.implicitTls) :=
      OnlySends.connectTo trivial trivial
    cases hosts with
    | nil => exact OnlySends.bind onlySends_arm fun _ => hconnect
    | cons next hosts =>
      refine OnlySends.bind onlySends_arm fun _ => OnlySends.tryCatch hconnect fun raised => ?_
      split
      · exact OnlySends.bind (OnlySends.update fun _ => rfl) fun _ => ih
      · exact OnlySends.throw

/-- Opening a session sends early commands only. -/
theorem onlySends_openSession : OnlySends Command.Early (mail.openSession network) := by
  have hehlo : OnlySends Command.Early (ehlo network) := OnlySends.ehlo trivial
  refine OnlySends.bind (onlySends_connectFirst _) fun _ => OnlySends.ite ?_ OnlySends.throw
  refine OnlySends.ite (OnlySends.bind onlySends_arm fun _ => ?_) OnlySends.pure
  refine OnlySends.bind hehlo fun _ => OnlySends.bind OnlySends.get fun _ => OnlySends.ite ?_ OnlySends.throw
  refine OnlySends.bind onlySends_arm fun _ =>
    OnlySends.bind (OnlySends.starttls trivial trivial trivial trivial) ?_
  exact fun _ => OnlySends.bind hehlo fun _ => OnlySends.pure

/-- What sending the message returns or raises, by the reply to it. -/
def transferred (network : Network) (refused : Refused) : ReadReply → Except Raised Refused
  | .reply reply _ =>
    if reply.code = 250 then .ok refused else .error (handled network .data (.smtp (.data reply.code)))
  | .tooLong => .error (handled network .data (.smtp (.response 500)))
  | .cut => .error (handled network .data (.smtp .serverDisconnected))

/-- **Sending the message** is one exchange, and the reply to it decides. -/
theorem transfer_spec (refused : Refused) (hopen : c.isOpen = true) :
    ∃ e : Exchange, e.Transfers ∧ ((SmtpMail.transfer network mime).on c).2.transcript = c.transcript ++ [e] ∧
      (((SmtpMail.transfer network mime).on c).1.mapError (handled network .data)).map (fun _ => refused)
        = transferred network refused e.reply := by
  obtain ⟨e, hcommand, htranscript, hreply, -⟩ := docmd_spec network (.payload (dataPayload mime.body)) hopen
  refine ⟨e, ⟨_, hcommand⟩, ?_⟩
  rcases hsend : (docmd network (.payload (dataPayload mime.body))).on c with ⟨answer, c₁⟩
  rw [hsend] at htranscript hreply
  cases hread : e.reply with
  | reply reply rest =>
    rw [hread] at hreply
    obtain rfl : answer = .ok reply := hreply
    rw [SmtpMail.transfer, Failing.on_bind_ok hsend]
    unfold transferred
    dsimp only
    split
    · exact ⟨htranscript, rfl⟩
    · exact ⟨htranscript, rfl⟩
  | tooLong =>
    rw [hread] at hreply
    obtain rfl : answer = .error (.smtp (.response 500)) := hreply
    rw [SmtpMail.transfer, Failing.on_bind_error hsend]
    exact ⟨htranscript, rfl⟩
  | cut =>
    rw [hread] at hreply
    obtain rfl : answer = .error (.smtp .serverDisconnected) := hreply
    rw [SmtpMail.transfer, Failing.on_bind_error hsend]
    exact ⟨htranscript, rfl⟩

/-- **How a delivery ends**: the server has not asked for the message; or the recipients were offered, the
message was sent once, and the reply to it decides. -/
theorem stages_cases {result : Except Raised Refused} (hc : c.transcript = [])
    (h : (mail.stages network mime).on c = (result, c')) :
    ((∃ raised, result = .error raised) ∧ (∀ e ∈ c'.transcript, ¬ e.Transfers) ∧
        ∀ e ∈ c'.transcript, e.command = .data → e.code ≠ some 354) ∨
      ∃ before e refused, c'.transcript = before ++ [e] ∧ (∀ e ∈ before, ¬ e.Transfers) ∧ e.Transfers ∧
        (∃ e ∈ before, e.command = .data ∧ e.code = some 354) ∧ Offered mime.recipients refused before ∧
        result = transferred network refused e.reply := by
  rcases Failing.on_bind_cases h with ⟨raised, hopening, rfl⟩ | ⟨_, c₁, hopening, h⟩
  · -- no session
    left
    rcases staged_cases hopening with ⟨_, hopening, -⟩ | ⟨_, hopening, hresult⟩
    · obtain ⟨added, hadded, hkind⟩ := onlySends_openSession.run hopening
      rw [hc, List.nil_append] at hadded
      rw [hadded]
      exact ⟨⟨_, rfl⟩, fun e he => (hkind e he).not_transfers, fun e he hdata =>
        absurd hdata (hkind e he).ne_data⟩
    · cases hresult
  rcases staged_cases hopening with ⟨_, -, hresult⟩ | ⟨_, hopening, -⟩
  · cases hresult
  obtain ⟨opened, hopened, hkind⟩ := onlySends_openSession.run hopening
  rw [hc, List.nil_append] at hopened
  have hearly : ∀ e ∈ opened, e.command.Early := hkind
  rcases Failing.on_bind_cases h with ⟨raised, hoffering, rfl⟩ | ⟨refused, c₂, hoffering, h⟩
  · -- the session ends before the message
    left
    rcases staged_cases hoffering with ⟨_, hoffering, -⟩ | ⟨_, hoffering, hresult⟩
    · obtain ⟨added, hadded, hoffer⟩ := offer_spec hoffering
      have hoffer' := hoffer.prepend hearly
      rw [hadded, hopened]
      exact ⟨⟨_, rfl⟩, hoffer'.transfers, hoffer'.error _ rfl⟩
    · cases hresult
  rcases staged_cases hoffering with ⟨_, -, hresult⟩ | ⟨refused', hoffering, hresult⟩
  · cases hresult
  obtain rfl := Except.ok.inj hresult
  obtain ⟨added, hadded, hoffer⟩ := offer_spec hoffering
  have hoffer' := hoffer.prepend hearly
  obtain ⟨hopen, hdata, hoffered⟩ := hoffer'.ok refused rfl
  rw [hopened] at hadded
  right
  obtain ⟨e, htransfers, htranscript, houtcome⟩ := @transfer_spec network c₂ mime refused hopen
  rw [hadded] at htranscript
  have hlast : c'.transcript = (opened ++ added) ++ [e] ∧ result = transferred network refused e.reply := by
    rcases Failing.on_bind_cases h with ⟨raised, hsending, rfl⟩ | ⟨_, c₃, hsending, h⟩
    · rcases staged_cases hsending with ⟨raised', hsending, hresult⟩ | ⟨_, -, hresult⟩
      · rw [hsending] at htranscript houtcome
        obtain rfl := Except.error.inj hresult
        exact ⟨htranscript, houtcome⟩
      · cases hresult
    · rcases staged_cases hsending with ⟨_, -, hresult⟩ | ⟨_, hsending, -⟩
      · cases hresult
      · rw [hsending] at htranscript houtcome
        obtain ⟨rfl, rfl⟩ := Prod.mk.inj h
        exact ⟨htranscript, houtcome⟩
  exact ⟨opened ++ added, e, refused, hlast.1, hoffer'.transfers, htransfers, hdata, hoffered, hlast.2⟩

/-- What `send` makes of what `_deliver` returns or raises. -/
def reported (messageId : Text) : Except Raised Refused → Except Raised Sent
  | .ok refused => .ok ⟨messageId, refused⟩
  | .error (.mail error) => .error (.mail { error with messageId := some messageId })
  | .error raised => .error raised

/-- **What the reply to the message tells the caller**: the message may have been delivered exactly when the
reply is read as 250, breaks off, or comes too late. -/
theorem maybeSent_transferred (messageId : Text) (refused : Refused) (e : Exchange) :
    MaybeSent (reported messageId (transferred network refused e.reply))
      ↔ e.code = some 250 ∨ e.reply = .cut ∨ network.lateAtFailure = true := by
  have hrejected {raised : SmtpError} (hcertain : (failure raised .data).deliveryUnknown = false) :
      MaybeSent (reported messageId (.error (handled network .data (.smtp raised))))
        ↔ network.lateAtFailure = true := by
    unfold handled reported MaybeSent
    dsimp only
    by_cases hlate : network.lateAtFailure = true
    · rw [if_pos hlate]
      exact iff_of_true (Or.inr ⟨_, rfl, rfl⟩) hlate
    · rw [if_neg hlate]
      refine iff_of_false ?_ hlate
      rintro (⟨_, ⟨⟩⟩ | ⟨error, herror, hunknown⟩)
      obtain rfl := Raised.mail.inj (Except.error.inj herror)
      exact Bool.noConfusion (hcertain.symm.trans hunknown)
  unfold Exchange.code
  cases hread : e.reply with
  | reply reply rest =>
    unfold transferred
    dsimp only
    split
    · rename_i hcode
      exact iff_of_true (Or.inl ⟨_, rfl⟩) (Or.inl (congrArg some hcode))
    · rename_i hcode
      rw [hrejected rfl, or_iff_right fun h => hcode (Option.some.inj h), or_iff_right (by rintro ⟨⟩)]
  | tooLong =>
    unfold transferred
    dsimp only
    rw [hrejected rfl, or_iff_right (by rintro ⟨⟩), or_iff_right (by rintro ⟨⟩)]
  | cut =>
    refine iff_of_true ?_ (Or.inr (Or.inl rfl))
    unfold transferred handled reported MaybeSent
    dsimp only
    split
    · exact Or.inr ⟨_, rfl, rfl⟩
    · exact Or.inr ⟨_, rfl, rfl⟩

/-- An error stays an error. -/
theorem reported_error (messageId : Text) (raised : Raised) :
    ∃ raised', reported messageId (.error raised) = .error raised' := by
  cases raised with
  | smtp error => exact ⟨_, rfl⟩
  | mail error => exact ⟨_, rfl⟩
  | valueError => exact ⟨_, rfl⟩

/-- A send that succeeds reports the recipients that were refused when they were offered. -/
theorem refused_of_reported {messageId : Text} {refused : Refused} {read : ReadReply} {sent : Sent}
    (h : reported messageId (transferred network refused read) = .ok sent) : sent.refused = refused := by
  have herror (raised : Raised) (h : reported messageId (.error raised) = .ok sent) : False := by
    obtain ⟨raised', hraised⟩ := reported_error messageId raised
    cases hraised.symm.trans h
  unfold transferred at h
  split at h
  · split at h
    · obtain rfl := Except.ok.inj h
      rfl
    · exact (herror _ h).elim
  · exact (herror _ h).elim
  · exact (herror _ h).elim

/-- **A send that does not get as far as the message** tells the truth. -/
theorem honest_of_quiet {result : Except Raised Sent} {transcript : List Exchange} {recipients : List Text}
    (herror : ∃ raised, result = .error raised) (hquiet : ∀ e ∈ transcript, ¬ e.Transfers)
    (hdata : ∀ e ∈ transcript, e.command = .data → e.code ≠ some 354) :
    Honest result transcript ↔ Regular network recipients transcript := by
  refine iff_of_true ⟨?_, ?_, fun _ => ⟨herror, hquiet⟩⟩ ⟨?_, ?_⟩
  · rintro ⟨e, he, htransfers, -⟩
    exact absurd htransfers (hquiet e he)
  · rintro sent rfl
    obtain ⟨raised, hraised⟩ := herror
    cases hraised
  · exact fun e he htransfers => absurd htransfers (hquiet e he)
  · exact fun e he hcommand hcode => absurd hcode (hdata e he hcommand)

/-- **A send that gets as far as the message** tells the truth exactly when the server is regular. -/
theorem honest_of_transferred {before after : List Exchange} {e : Exchange} {recipients : List Text}
    {refused : Refused} {messageId : Text} (hquiet : ∀ e ∈ before, ¬ e.Transfers) (htransfers : e.Transfers)
    (hafter : ∀ e ∈ after, e.command.Early) (hdata : ∃ e ∈ before, e.command = .data ∧ e.code = some 354)
    (hoffered : Offered recipients refused before) :
    Honest (reported messageId (transferred network refused e.reply)) (before ++ [e] ++ after)
      ↔ Regular network recipients (before ++ [e] ++ after) := by
  -- the message is transferred once
  have hone : ∀ e' ∈ before ++ [e] ++ after, e'.Transfers ↔ e' = e := by
    intro e' he'
    constructor
    · intro htransfers'
      rcases List.mem_append.mp he' with he' | he'
      · rcases List.mem_append.mp he' with he' | he'
        · exact absurd htransfers' (hquiet e' he')
        · exact List.mem_singleton.mp he'
      · exact absurd htransfers' (hafter e' he').not_transfers
    · rintro rfl
      exact htransfers
  have he : e ∈ before ++ [e] ++ after :=
    List.mem_append_left _ (List.mem_append_right _ List.mem_cons_self)
  have hlast : ∀ e' ∈ [e], ∀ recipient, e'.command ≠ .rcpt recipient := by
    obtain ⟨bytes, hcommand⟩ := htransfers
    rintro e' he' recipient hrcpt
    rw [List.mem_singleton.mp he'] at hrcpt
    cases hcommand.symm.trans hrcpt
  have hoffered' := (hoffered.append hlast).append fun e' he' _ => (hafter e' he').ne_rcpt
  -- what the reply tells
  have hreply : (Accepted (before ++ [e] ++ after)
      → MaybeSent (reported messageId (transferred network refused e.reply)))
      ↔ ∀ e' ∈ before ++ [e] ++ after, e'.Transfers → e'.Begins250 →
        e'.code = some 250 ∨ e'.reply = .cut ∨ network.lateAtFailure = true := by
    rw [maybeSent_transferred]
    constructor
    · intro h e' he' htransfers' hbegins
      obtain rfl := (hone e' he').mp htransfers'
      exact h ⟨e', he', htransfers', hbegins⟩
    · rintro h ⟨e', he', htransfers', hbegins⟩
      obtain rfl := (hone e' he').mp htransfers'
      exact h e' he' htransfers' hbegins
  -- whether someone was accepted
  have hsome : (∃ e' ∈ before ++ [e] ++ after, ∃ recipient, e'.Accepts recipient)
      ↔ ¬ ∀ e' ∈ before ++ [e] ++ after, ∀ recipient, e'.command = .rcpt recipient → e'.Refuses recipient := by
    push Not
    constructor
    · rintro ⟨e', he', recipient, haccepts⟩
      obtain ⟨code, hcode, -⟩ := haccepts.2
      have hanswer := refuses_or_accepts haccepts.1 hcode
      refine ⟨e', he', recipient, haccepts.1, ?_⟩
      split at hanswer
      · exact hanswer.2
      · exact absurd haccepts hanswer.2
    · rintro ⟨e', he', recipient, hcommand, hnot⟩
      obtain ⟨code, hcode⟩ := hoffered'.answered e' he' recipient hcommand
      have hanswer := refuses_or_accepts hcommand hcode
      split at hanswer
      · exact ⟨e', he', recipient, hanswer.1⟩
      · exact absurd hanswer.1 hnot
  constructor
  · intro hhonest
    refine ⟨hreply.mp hhonest.accepted, fun _ _ _ _ => Or.inr (hsome.mpr fun hall => ?_)⟩
    exact (hhonest.allRefused hall).2 e he htransfers
  · rintro ⟨hregular, hasked⟩
    refine ⟨hreply.mpr hregular, fun sent hsent recipient => ?_, fun hall => ?_⟩
    · rw [← hoffered'.refused, refused_of_reported hsent]
    · -- if all recipients were refused, the server would not have asked for the message
      obtain ⟨d, hd, hcommand, hcode⟩ := hdata
      have hd' := List.mem_append_left after (List.mem_append_left [e] hd)
      refine absurd hall (hsome.mp ?_)
      rcases hasked d hd' hcommand hcode with hnodup | haccepted
      · exact hoffered'.accepted hnodup
      · exact haccepted

/-- The recipients of a message, when it can be built. -/
def envelopeRecipients (mail : SmtpMail) (builder : Builder) (message : MailMessage) : List Text :=
  (buildMime builder message (message.fromAddress.getD mail.fromAddress)).elim [] Mime.recipients

/-- **The caller is told the truth exactly when the server is regular**: when its reply to the message begins
with 250, it ends with a line of that code, breaks off or comes too late; and when it asks for the message, no
address was given twice or some recipient was accepted. -/
theorem send_honest_iff (network : Network) (mail : SmtpMail) (builder : Builder) (leaseLost : Bool)
    (message : MailMessage) :
    Honest ((mail.send network builder leaseLost message).on {}).1
        ((mail.send network builder leaseLost message).on {}).2.transcript
      ↔ Regular network (envelopeRecipients mail builder message)
        ((mail.send network builder leaseLost message).on {}).2.transcript := by
  unfold SmtpMail.send envelopeRecipients
  split
  · exact honest_of_quiet ⟨_, rfl⟩ (by rintro _ ⟨⟩) (by rintro _ ⟨⟩)
  · cases hmime : buildMime builder message (message.fromAddress.getD mail.fromAddress) with
    | none => exact honest_of_quiet ⟨_, rfl⟩ (by rintro _ ⟨⟩) (by rintro _ ⟨⟩)
    | some mime =>
      rcases hstages : (mail.stages network mime).on {} with ⟨result, c⟩
      obtain ⟨quits, hquits, hkind⟩ := @OnlySends.docmd network Command.Early .quit trivial c
      -- whatever happened, the connection is closed, and an error gets the message id
      have hsend : (tryCatch (mail.deliver network mime >>= fun refused => pure ⟨mime.messageId, refused⟩) fun
            | .mail error => throw (.mail { error with messageId := some mime.messageId })
            | raised => throw raised : Smtp Sent).on {}
          = (reported mime.messageId result, ((docmd network .quit).on c).2) := by
        rw [Failing.on_tryCatch, Failing.on_bind, SmtpMail.deliver, Failing.on_call, hstages]
        cases result with
        | ok refused => rfl
        | error raised =>
          cases raised with
          | smtp error => rfl
          | mail error => rfl
          | valueError => rfl
      dsimp only [Option.elim_some]
      rw [hsend]
      dsimp only
      rw [hquits]
      rcases stages_cases rfl hstages with ⟨⟨raised, rfl⟩, hquiet, hdata⟩ | ⟨before, e, refused, hbefore, h⟩
      · -- the session failed before the message
        refine honest_of_quiet (reported_error _ raised) ?_ ?_
        · exact List.forall_mem_append.mpr ⟨hquiet, fun e he => (hkind e he).not_transfers⟩
        · exact List.forall_mem_append.mpr ⟨hdata, fun e he h => absurd h (hkind e he).ne_data⟩
      · obtain ⟨hquiet, htransfers, hdata, hoffered, rfl⟩ := h
        rw [hbefore]
        exact honest_of_transferred hquiet htransfers hkind hdata hoffered

end Deliver

/-! ## A server -/

/-- A relay without TLS that answers what it is sent, one after the other. -/
def relay (answers : List Bytes) : Network where
  answer n := ⟨⟨answers.getD n [], false⟩, .sent⟩
  late _ := false
  lateAtFailure := false
  addresses := ["10.0.0.1".toList]

/-- A client of that relay. -/
def relayed : SmtpMail where
  host := "relay".toList
  implicitTls := false
  tls := false
  credentials := false
  fromAddress := "a@x.y".toList
  credentials_tls := by rintro ⟨⟩
  implicitTls_tls := by rintro ⟨⟩

/-- Addresses and bodies as they are. -/
def plainBuilder : Builder where
  parseAddress := some
  build message sender _ := some ("<1@x.y>".toList, sender, (message.text.getD []).map fun c =>
    UInt8.ofNat c.toNat)

/-- A message. -/
def greeting (recipients : List Text) : MailMessage :=
  ⟨recipients, "s".toList, some "t".toList, none, none, none, none, none⟩

/-- A line that a server answers with. -/
def line (text : String) : Bytes := text.toList.map (fun c => UInt8.ofNat c.toNat) ++ [13, 10]

/-- The server accepts the message in a line that is longer than `smtplib` reads. -/
def longAcceptance : Network := relay
  [line "220 x", line "250 x", line "250 x", line "250 x", line "354 x",
  [50, 53, 48, 32] ++ List.replicate 8200 120]

/-- The error says that the message was not accepted. -/
def deniesDelivery : Except Raised Sent → Bool
  | .error (.mail error) => !error.deliveryUnknown
  | _ => false

/-- Where delivery is denied nothing may have been sent. -/
theorem not_maybeSent {result : Except Raised Sent} (h : deniesDelivery result = true) : ¬ MaybeSent result := by
  rintro (⟨sent, rfl⟩ | ⟨error, rfl, hunknown⟩)
  · cases h
  · rw [deniesDelivery, hunknown] at h
    cases h

/-- An exchange in which the message is accepted. -/
def accepts (e : Exchange) : Bool :=
  match e.command, e.received with
  | .payload _, some received => [50, 53, 48].isPrefixOf received.bytes
  | _, _ => false

/-- A transcript in which the data was accepted accepts the message. -/
theorem accepted_of_any {transcript : List Exchange}
    (h : transcript.any accepts = true) : Accepted transcript := by
  obtain ⟨e, he, haccepts⟩ := List.any_eq_true.mp h
  unfold accepts at haccepts
  split at haccepts
  · rename_i hcommand hreceived
    exact ⟨e, he, ⟨_, hcommand⟩, _, hreceived, List.isPrefixOf_iff_prefix.mp haccepts⟩
  · cases haccepts

/-- The server accepts the message, and the caller is told that it refused a command. -/
theorem not_send_honest : ¬ ∀ (network : Network) (mail : SmtpMail) (builder : Builder) (leaseLost : Bool)
    (message : MailMessage), Honest ((mail.send network builder leaseLost message).on {}).1
      ((mail.send network builder leaseLost message).on {}).2.transcript := by
  intro h
  have hhonest := h longAcceptance relayed plainBuilder false (greeting ["b@x.y".toList])
  exact not_maybeSent (by decide +kernel) (hhonest.accepted (accepted_of_any (by decide +kernel)))

end Jasil.Mail
