import Jasil.FiniteMaps.Retained
import Jasil.Transition.Failing
import Mathlib.Data.Finset.Sort

/-! # An SMTP client
What `smtplib` does with a connection, for any server: what is sent, how replies are read, and what is raised.

* **`readReply`**: the lines of a reply; the code of the last one is the code of the reply.
* **`Exchange`**: something that was sent, and what could be read from then on. As in the protocol, the next
  reply answers what was sent last.
* **`OnlySends`**: what a step can send. -/

namespace Jasil.Mail

/-- Text, as its code points. -/
abbrev Text := List Char

/-- What goes over a connection. -/
abbrev Bytes := List UInt8

/-! ## Errors -/

/-- `MailFailure`, as far as a send over SMTP goes. -/
inductive MailFailure
  | other
  | authFailed
  | unsupported
  | senderRefused
  | recipientRefused
  | messageRejected
  | unreachable
  | tlsFailed
  | connectionLost
  | deadline
  | leaseLost
  deriving DecidableEq

/-- `MailError`. -/
structure MailError where
  message : String
  status : Option ℤ := none
  kind : MailFailure := .other
  deliveryUnknown : Bool := false
  messageId : Option Text := none
  deriving DecidableEq

/-- A reply: its code, and the texts of its lines. -/
structure Reply where
  code : ℤ
  lines : List Bytes

/-- `smtplib.SMTPException` and `OSError`. -/
inductive SmtpError
  | authentication (code : ℤ)
  | recipientsRefused (refused : FiniteMap Text Reply)
  | senderRefused (code : ℤ)
  | connect (code : ℤ)
  | data (code : ℤ)
  | helo (code : ℤ)
  | response (code : ℤ)
  | notSupported
  | serverDisconnected
  /-- `SMTPException` itself. -/
  | plain
  | ssl
  | os

/-- What a send raises. -/
inductive Raised
  | smtp (error : SmtpError)
  | mail (error : MailError)
  | valueError

/-! ## Reading a reply -/

/-- Whitespace in bytes. -/
def isSpace (b : UInt8) : Bool := b = 32 ∨ (9 ≤ b ∧ b ≤ 13)

/-- `int` of bytes: digits that single underscores may separate, with a sign, and with whitespace around. -/
def intOf (raw : Bytes) : Option ℤ :=
  let trimmed := ((raw.dropWhile isSpace).reverse.dropWhile isSpace).reverse
  let (negative, digits) := match trimmed with
    | 45 :: digits => (true, digits)
    | 43 :: digits => (false, digits)
    | digits => (false, digits)
  if (digits.splitOn 95).all fun group => !group.isEmpty && group.all fun d => 48 ≤ d ∧ d ≤ 57 then
    let n : ℕ := (digits.filter (· ≠ 95)).foldl (fun n d => 10 * n + (d.toNat - 48)) 0
    some (if negative then -n else n)
  else none

/-- `_MAXLINE`. -/
def maxLine : ℕ := 8192

/-- The code of a line, -1 where there is none, and whether another line follows. -/
def lineCode (bytes : Bytes) : ℤ × Bool :=
  match intOf (bytes.take 3) with
  | none => (-1, false)
  | some code => (code, decide (bytes[3]? = some 45))

/-- `line[4:].strip(b" \t\r\n")`. -/
def lineText (line : Bytes) : Bytes :=
  let blank (b : UInt8) : Bool := b = 32 ∨ b = 9 ∨ b = 13 ∨ b = 10
  (((line.drop 4).dropWhile blank).reverse.dropWhile blank).reverse

/-- What comes of reading a reply. -/
inductive ReadReply
  | reply (reply : Reply) (rest : Bytes)
  /-- A line is over `_MAXLINE` bytes. -/
  | tooLong
  /-- The bytes end before the reply does. -/
  | cut

/-- The bytes that can be read without sending anything else; then the connection is closed, or stays silent. -/
structure Received where
  bytes : Bytes
  closed : Bool

/-- The loop of `getreply`, a byte at a time: a line is given in reverse, with its length. -/
def readLines (closed : Bool) : Bytes → Bytes → ℕ → List Bytes → ReadReply
  | [], line, _, texts =>
    -- `readline` returns the rest of a stream that ends
    if closed = true ∧ line ≠ [] ∧ (lineCode line.reverse).2 = false then
      .reply ⟨(lineCode line.reverse).1, texts ++ [lineText line.reverse]⟩ []
    else .cut
  | b :: bytes, line, length, texts =>
    if maxLine < length + 1 then .tooLong
    else if b = 10 then
      let (code, more) := lineCode (b :: line).reverse
      let texts := texts ++ [lineText (b :: line).reverse]
      if more then readLines closed bytes [] 0 texts else .reply ⟨code, texts⟩ bytes
    else readLines closed bytes (b :: line) (length + 1) texts

/-- What `getreply` reads. -/
def readReply (received : Received) : ReadReply := readLines received.closed received.bytes [] 0 []

/-! ## A connection -/

/-- What a client sends. -/
inductive Command
  | connect (host : Text)
  | handshake
  | ehlo
  | helo
  | starttls
  | auth (mechanism : String)
  | authResponse
  | mail (sender : Text) (size : Option ℕ)
  | rcpt (recipient : Text)
  | data
  | payload (bytes : Bytes)
  | quit
  deriving DecidableEq

/-- How sending goes. -/
inductive Sending
  | sent
  | failed
  | tlsFailed
  deriving DecidableEq

/-- What the network does with something that is sent, and what arrives before anything else is sent. -/
structure Answer extends Received where
  sending : Sending

/-- **What happens around a send**, whatever the server does. -/
structure Network where
  /-- The answer to what is sent as the `n`-th. -/
  answer : ℕ → Answer
  /-- The deadline has passed at the `n`-th look at the clock. -/
  late : ℕ → Bool
  /-- The deadline has passed when an error is handled. -/
  lateAtFailure : Bool
  /-- The private addresses of the relay. -/
  addresses : List Text

/-- Something that was sent, and what could be read from then on; nothing when sending failed. -/
structure Exchange where
  command : Command
  received : Option Received

/-- What is read as the reply. -/
def Exchange.reply (e : Exchange) : ReadReply := e.received.elim .cut readReply

/-- The code of the reply. -/
def Exchange.code (e : Exchange) : Option ℤ :=
  match e.reply with
  | .reply reply _ => some reply.code
  | _ => none

/-- `esmtp_features`: their names, and the mechanisms of `auth`. -/
structure Features where
  names : List Text := []
  mechanisms : List Text := []

/-- `smtplib.SMTP`. -/
structure Connection where
  isOpen : Bool := false
  unread : Received := ⟨[], false⟩
  greeted : Bool := false
  doesEsmtp : Bool := false
  features : Features := {}
  /-- How much was sent, and how often the clock was looked at. -/
  sent : ℕ := 0
  looks : ℕ := 0
  transcript : List Exchange := []

/-- A step of a send. -/
abbrev Smtp := Failing Raised Connection

/-- A change of the connection. -/
def update (f : Connection → Connection) : Smtp Unit := Failing.call fun c => (.ok (), f c)

/-- `close`. -/
def close : Smtp Unit := update fun c => { c with isOpen := false }

variable (network : Network)

/-- What can be read once something more was sent. -/
def Connection.next (c : Connection) : Received :=
  ⟨c.unread.bytes ++ (network.answer c.sent).bytes, (network.answer c.sent).closed⟩

/-- Sending, and what arrives then. -/
def transmit (command : Command) (failed : SmtpError) : Smtp Unit := Failing.call fun c =>
  match (network.answer c.sent).sending with
  | .sent => (.ok (), { c with
      unread := c.next network
      sent := c.sent + 1
      transcript := c.transcript ++ [⟨command, some (c.next network)⟩] })
  | _ => (.error (.smtp failed), { c with
      isOpen := false
      sent := c.sent + 1
      transcript := c.transcript ++ [⟨command, none⟩] })

/-- `send`. -/
def sendCommand (command : Command) : Smtp Unit := do
  let c ← get
  if c.isOpen then transmit network command .serverDisconnected else throw (.smtp .serverDisconnected)

/-- What `getreply` returns or raises. -/
def ReadReply.outcome : ReadReply → Except Raised Reply
  | .reply found _ => .ok found
  | .tooLong => .error (.smtp (.response 500))
  | .cut => .error (.smtp .serverDisconnected)

/-- `getreply`. -/
def getReply : Smtp Reply := Failing.call fun c =>
  ((readReply c.unread).outcome, match readReply c.unread with
    | .reply _ rest => { c with unread := ⟨rest, c.unread.closed⟩ }
    | _ => { c with isOpen := false })

/-- `docmd`. -/
def docmd (command : Command) : Smtp Reply := do
  sendCommand network command
  getReply

/-- `wrap_socket`: what is unread stays outside. -/
def wrapSocket : Smtp Unit := do
  update fun c => { c with unread := ⟨[], false⟩ }
  let c ← get
  transmit network .handshake (if (network.answer c.sent).sending = .tlsFailed then .ssl else .os)

/-- `connect`. -/
def connectTo (host : Text) (implicitTls : Bool) : Smtp Reply := do
  update fun c => { c with unread := ⟨[], false⟩ }
  transmit network (.connect host) .os
  (if implicitTls then wrapSocket network else pure () : Smtp Unit)
  update fun c => { c with isOpen := true }
  getReply

/-! ## Features -/

/-- A character of the name of a feature. -/
def isFeature (c : Char) : Bool := c.isAlphanum || c = '-'

/-- Whitespace in Latin-1. -/
def isBlank (c : Char) : Bool :=
  c = ' ' ∨ (9 ≤ c.toNat ∧ c.toNat ≤ 13) ∨ (28 ≤ c.toNat ∧ c.toNat ≤ 31) ∨ c.toNat = 133 ∨ c.toNat = 160

/-- `split()`. -/
def words (text : Text) : List Text := (text.splitOnP isBlank).filter (!·.isEmpty)

/-- A line of the reply to `EHLO`. -/
def Features.add (features : Features) (line : Bytes) : Features :=
  let text : Text := line.map fun b => Char.ofNat b.toNat
  if (text.take 5).map Char.toLower = "auth=".toList then
    ⟨features.names ++ ["auth".toList], features.mechanisms ++ words (text.drop 5)⟩
  else if (text.head?.elim false Char.isAlphanum) = true then
    let name := (text.takeWhile isFeature).map Char.toLower
    ⟨features.names ++ [name],
      if name = "auth".toList then features.mechanisms ++ words (text.drop name.length) else features.mechanisms⟩
  else features

/-- `has_extn`. -/
def hasExtn (name : String) (c : Connection) : Bool := c.features.names.contains name.toList

/-- The reply to `EHLO` is kept, and its lines from the second on name what the server can do. -/
def Connection.greet (c : Connection) (reply : Reply) : Connection :=
  if reply.code = 250 then
    { c with greeted := true, doesEsmtp := true, features := reply.lines.tail.foldl Features.add {} }
  else { c with greeted := true }

/-- `ehlo`. -/
def ehlo : Smtp Reply := do
  update fun c => { c with features := {} }
  let reply ← docmd network .ehlo
  if reply.code = -1 ∧ reply.lines = [[]] then do
    close
    throw (.smtp .serverDisconnected)
  else do
    update fun c => c.greet reply
    return reply

/-- `helo`. -/
def helo : Smtp Reply := do
  let reply ← docmd network .helo
  update fun c => { c with greeted := true }
  return reply

/-- `ehlo_or_helo_if_needed`. -/
def ehloOrHeloIfNeeded : Smtp Unit := do
  let c ← get
  if c.greeted then pure ()
  else do
    let reply ← ehlo network
    if 200 ≤ reply.code ∧ reply.code ≤ 299 then pure ()
    else do
      let reply ← helo network
      if 200 ≤ reply.code ∧ reply.code ≤ 299 then pure () else throw (.smtp (.helo reply.code))

/-- `starttls`. -/
def starttls : Smtp Unit := do
  ehloOrHeloIfNeeded network
  let c ← get
  if hasExtn "starttls" c then do
    let reply ← docmd network .starttls
    if reply.code = 220 then do
      wrapSocket network
      update fun c => { c with greeted := false, doesEsmtp := false, features := {} }
    else throw (.smtp (.response reply.code))
  else throw (.smtp .notSupported)

/-! ## Authentication -/

/-- `base64.decodebytes` takes the text: what is not of the alphabet is skipped, and padding ends it. -/
def decodesBase64 : Bytes → ℕ → ℕ → Bool
  | [], quad, _ => quad % 4 = 0
  | b :: bytes, quad, pads =>
    if b = 61 then
      if 2 ≤ quad % 4 then
        if 4 ≤ quad % 4 + (pads + 1) then true else decodesBase64 bytes quad (pads + 1)
      else decodesBase64 bytes quad pads
    else if (48 ≤ b ∧ b ≤ 57) ∨ (65 ≤ b ∧ b ≤ 90) ∨ (97 ≤ b ∧ b ≤ 122) ∨ b = 43 ∨ b = 47 then
      decodesBase64 bytes (quad + 1) 0
    else decodesBase64 bytes quad pads

/-- The challenges of `auth`: at most `left` are answered, and the last answer is one too many. -/
def answerChallenges : ℕ → Reply → Smtp Reply
  | 0, reply => pure reply
  | left + 1, reply =>
    if reply.code = 334 then
      if decodesBase64 reply.lines.flatten 0 0 then do
        let reply ← docmd network .authResponse
        if left = 0 then throw (.smtp .plain) else answerChallenges left reply
      else throw .valueError
    else pure reply

/-- `auth`. -/
def auth (mechanism : String) (answers : ℕ) : Smtp Reply := do
  let reply ← docmd network (.auth mechanism)
  let reply ← answerChallenges network answers reply
  if reply.code = 235 ∨ reply.code = 503 then return reply else throw (.smtp (.authentication reply.code))

/-- The mechanisms, and how many answers they can give: the first one of `PLAIN` and `LOGIN` is given at once. -/
def preferredAuths : List (String × ℕ) := [("CRAM-MD5", 6), ("PLAIN", 5), ("LOGIN", 5)]

/-- The loop of `login`; `last` is the code of the last refusal. -/
def tryMechanisms : List (String × ℕ) → ℤ → Smtp Unit
  | [], last => throw (.smtp (.authentication last))
  | (mechanism, answers) :: rest, _ =>
    tryCatch (auth network mechanism answers >>= fun _ => pure ()) fun
      | .smtp (.authentication code) => tryMechanisms rest code
      | error => throw error

/-- `login`. -/
def login : Smtp Unit := do
  ehloOrHeloIfNeeded network
  let c ← get
  if hasExtn "auth" c then
    match preferredAuths.filter fun m => c.features.mechanisms.contains m.1.toList with
    | [] => throw (.smtp .plain)
    | mechanisms => tryMechanisms network mechanisms 0
  else throw (.smtp .notSupported)

/-! ## What a step can send -/

/-- Reading the greeting sends nothing. -/
@[simp] theorem Connection.transcript_greet (c : Connection) (reply : Reply) :
    (c.greet reply).transcript = c.transcript := by
  unfold greet
  split
  · rfl
  · rfl

/-- All that the step sends is of a kind. -/
def OnlySends {α : Type} (P : Command → Prop) (p : Smtp α) : Prop :=
  ∀ c, ∃ added, (p.on c).2.transcript = c.transcript ++ added ∧ ∀ e ∈ added, P e.command

namespace OnlySends

variable {network} {P : Command → Prop} {α β : Type} {p : Smtp α} {f : α → Smtp β}

/-- What a part of a session sends is added to the transcript. -/
theorem run (h : OnlySends P p) {c c' : Connection} {result : Except Raised α} (hrun : p.on c = (result, c')) :
    ∃ added, c'.transcript = c.transcript ++ added ∧ ∀ e ∈ added, P e.command := by
  obtain ⟨added, hadded, hkind⟩ := h c
  rw [hrun] at hadded
  exact ⟨added, hadded, hkind⟩

/-- What leaves the transcript sends nothing. -/
theorem of_transcript (h : ∀ c, (p.on c).2.transcript = c.transcript) : OnlySends P p := by
  intro c
  refine ⟨[], ?_, by rintro _ ⟨⟩⟩
  rw [h, List.append_nil]

/-- A value sends nothing. -/
theorem pure {a : α} : OnlySends P (pure a : Smtp α) := of_transcript fun _ => rfl

/-- An error sends nothing. -/
theorem throw {e : Raised} : OnlySends P (throw e : Smtp α) := of_transcript fun _ => rfl

/-- A change of the connection's state sends nothing. -/
theorem update {g : Connection → Connection} (h : ∀ c, (g c).transcript = c.transcript) :
    OnlySends P (update g) := of_transcript h

/-- Nor does a look at it. -/
theorem get : OnlySends P (get : Smtp Connection) := of_transcript fun _ => rfl

/-- Reading a reply sends nothing. -/
theorem getReply : OnlySends P getReply := by
  refine of_transcript fun c => ?_
  unfold Mail.getReply
  rw [Failing.on_call]
  dsimp only
  split
  · rfl
  · rfl

/-- One step after the other. -/
theorem bind (hp : OnlySends P p) (hf : ∀ a, OnlySends P (f a)) : OnlySends P (p >>= f) := by
  intro c
  obtain ⟨added, hadded, hkind⟩ := hp c
  rw [Failing.on_bind]
  rcases hrun : p.on c with ⟨result, c'⟩
  rw [hrun] at hadded
  cases result with
  | error e => exact ⟨added, hadded, hkind⟩
  | ok a =>
    obtain ⟨more, hmore, hkind'⟩ := hf a c'
    refine ⟨added ++ more, ?_, ?_⟩
    · dsimp only
      rw [hmore, hadded, List.append_assoc]
    · intro e he
      rcases List.mem_append.mp he with h | h
      · exact hkind e h
      · exact hkind' e h

/-- Handling an error sends what the handler does. -/
theorem tryCatch {handler : Raised → Smtp α} (hp : OnlySends P p) (hh : ∀ e, OnlySends P (handler e)) :
    OnlySends P (tryCatch p handler) := by
  intro c
  obtain ⟨added, hadded, hkind⟩ := hp c
  rw [Failing.on_tryCatch]
  rcases hrun : p.on c with ⟨result, c'⟩
  rw [hrun] at hadded
  cases result with
  | ok a => exact ⟨added, hadded, hkind⟩
  | error e =>
    obtain ⟨more, hmore, hkind'⟩ := hh e c'
    refine ⟨added ++ more, ?_, ?_⟩
    · dsimp only
      rw [hmore, hadded, List.append_assoc]
    · intro e he
      rcases List.mem_append.mp he with h | h
      · exact hkind e h
      · exact hkind' e h

/-- A choice sends what either side does. -/
theorem ite {q : Prop} [Decidable q] {p' : Smtp α} (hp : OnlySends P p) (hp' : OnlySends P p') :
    OnlySends P (if q then p else p') := by
  split
  · exact hp
  · exact hp'

/-- A command is sent. -/
theorem transmit {command : Command} {failed : SmtpError} (h : P command) :
    OnlySends P (transmit network command failed) := by
  intro c
  unfold Mail.transmit
  rw [Failing.on_call]
  split
  · refine ⟨[_], rfl, ?_⟩
    rintro e he
    rw [List.mem_singleton.mp he]
    exact h
  · refine ⟨[_], rfl, ?_⟩
    rintro e he
    rw [List.mem_singleton.mp he]
    exact h

/-- So it is when its reply is not read. -/
theorem sendCommand {command : Command} (h : P command) : OnlySends P (sendCommand network command) :=
  bind get fun _ => ite (transmit h) throw

/-- So it is when its reply is read. -/
theorem docmd {command : Command} (h : P command) : OnlySends P (docmd network command) :=
  bind (sendCommand h) fun _ => getReply

/-- TLS is a handshake. -/
theorem wrapSocket (h : P .handshake) : OnlySends P (wrapSocket network) :=
  bind (update fun _ => rfl) fun _ => bind get fun _ => transmit h

/-- A connection is made, with a handshake when TLS is implicit. -/
theorem connectTo {host : Text} {implicitTls : Bool} (h : P (.connect host)) (hwrap : P .handshake) :
    OnlySends P (connectTo network host implicitTls) :=
  bind (update fun _ => rfl) fun _ => bind (transmit h) fun _ =>
    bind (ite (wrapSocket hwrap) pure) fun _ => bind (update fun _ => rfl) fun _ => getReply

/-- `ehlo` sends `EHLO`. -/
theorem ehlo (h : P .ehlo) : OnlySends P (ehlo network) :=
  bind (update fun _ => rfl) fun _ => bind (docmd h) fun _ =>
    ite (bind (update fun _ => rfl) fun _ => throw) <|
      bind (update fun c => c.transcript_greet _) fun _ => pure

/-- `helo` sends `HELO`. -/
theorem helo (h : P .helo) : OnlySends P (helo network) :=
  bind (docmd h) fun _ => bind (update fun _ => rfl) fun _ => pure

/-- The server is greeted when it was not. -/
theorem ehloOrHeloIfNeeded (hehlo : P .ehlo) (hhelo : P .helo) : OnlySends P (ehloOrHeloIfNeeded network) :=
  bind get fun _ => ite pure <| bind (ehlo hehlo) fun _ => ite pure <|
    bind (helo hhelo) fun _ => ite pure throw

/-- `starttls` greets, asks for TLS and shakes hands. -/
theorem starttls (hehlo : P .ehlo) (hhelo : P .helo) (h : P .starttls) (hwrap : P .handshake) :
    OnlySends P (starttls network) :=
  bind (ehloOrHeloIfNeeded hehlo hhelo) fun _ => bind get fun _ =>
    ite (bind (docmd h) fun _ => ite (bind (wrapSocket hwrap) fun _ => update fun _ => rfl) throw) throw

/-- Challenges are answered. -/
theorem answerChallenges (h : P .authResponse) (left : ℕ) (reply : Reply) :
    OnlySends P (answerChallenges network left reply) := by
  induction left generalizing reply with
  | zero => exact pure
  | succ left ih => exact ite (ite (bind (docmd h) fun _ => ite throw (ih _)) throw) pure

/-- A mechanism is tried. -/
theorem auth {mechanism : String} {answers : ℕ} (h : ∀ mechanism, P (.auth mechanism))
    (hanswer : P .authResponse) :
    OnlySends P (auth network mechanism answers) :=
  bind (docmd (h _)) fun _ => bind (answerChallenges hanswer _ _) fun _ => ite pure throw

/-- So are several. -/
theorem tryMechanisms (h : ∀ mechanism, P (.auth mechanism)) (hanswer : P .authResponse)
    (mechanisms : List (String × ℕ)) (last : ℤ) : OnlySends P (tryMechanisms network mechanisms last) := by
  induction mechanisms generalizing last with
  | nil => exact throw
  | cons mechanism rest ih =>
    refine tryCatch (bind (auth h hanswer) fun _ => pure) fun error => ?_
    split
    · exact ih _
    · exact throw

/-- `login` greets, and tries the mechanisms. -/
theorem login (hehlo : P .ehlo) (hhelo : P .helo) (h : ∀ mechanism, P (.auth mechanism))
    (hanswer : P .authResponse) :
    OnlySends P (login network) := by
  refine bind (ehloOrHeloIfNeeded hehlo hhelo) fun _ => bind get fun c => ite ?_ throw
  split
  · exact throw
  · exact tryMechanisms h hanswer _ _

end OnlySends

/-! ## A command -/

section Command

variable {network} {command : Command} {c c' : Connection} {reply : Reply} {raised : Raised}

/-- **A command on an open connection** is one exchange, and returns or raises what can be read. -/
theorem docmd_spec (network : Network) (command : Command) (hopen : c.isOpen = true) :
    ∃ e : Exchange, e.command = command ∧ ((docmd network command).on c).2.transcript = c.transcript ++ [e] ∧
      ((docmd network command).on c).1 = e.reply.outcome ∧
      ∀ reply, e.reply.outcome = .ok reply → ((docmd network command).on c).2.isOpen = true := by
  rw [docmd, sendCommand, Failing.on_bind, Failing.on_bind, Failing.on_get]
  dsimp only
  rw [if_pos hopen, transmit, Failing.on_call]
  cases hsending : (network.answer c.sent).sending with
  | sent =>
    -- what is read is what could be read
    refine ⟨⟨command, some (c.next network)⟩, rfl, ?_⟩
    dsimp only
    rw [getReply, Failing.on_call]
    dsimp only [Exchange.reply, Option.elim_some]
    cases readReply (c.next network) with
    | reply reply rest => exact ⟨rfl, rfl, fun _ _ => hopen⟩
    | tooLong => exact ⟨rfl, rfl, by rintro _ ⟨⟩⟩
    | cut => exact ⟨rfl, rfl, by rintro _ ⟨⟩⟩
  | failed => exact ⟨⟨command, none⟩, rfl, rfl, rfl, by rintro _ ⟨⟩⟩
  | tlsFailed => exact ⟨⟨command, none⟩, rfl, rfl, rfl, by rintro _ ⟨⟩⟩

/-- Nothing is sent over a connection that is closed. -/
theorem docmd_closed (h : ¬ c.isOpen = true) :
    (docmd network command).on c = (.error (.smtp .serverDisconnected), c) := by
  rw [docmd, sendCommand, Failing.on_bind, Failing.on_bind, Failing.on_get]
  dsimp only
  rw [if_neg h, Failing.on_throw]

/-- **A command that is answered**. -/
theorem docmd_ok (h : (docmd network command).on c = (.ok reply, c')) : c'.isOpen = true ∧
    ∃ e : Exchange, e.command = command ∧ e.code = some reply.code ∧ c'.transcript = c.transcript ++ [e] := by
  by_cases hopen : c.isOpen = true
  · obtain ⟨e, hcommand, htranscript, hresult, hstays⟩ := docmd_spec network command hopen
    rw [h] at htranscript hresult hstays
    refine ⟨hstays reply hresult.symm, e, hcommand, ?_, htranscript⟩
    unfold Exchange.code
    cases hreply : e.reply with
    | reply reply' rest =>
      rw [hreply] at hresult
      obtain rfl := Except.ok.inj hresult
      rfl
    | tooLong =>
      rw [hreply] at hresult
      cases hresult
    | cut =>
      rw [hreply] at hresult
      cases hresult
  · rw [docmd_closed hopen] at h
    cases h

/-- **A command that fails** was not sent, or has no reply. -/
theorem docmd_error (h : (docmd network command).on c = (.error raised, c')) :
    ∃ added : List Exchange, c'.transcript = c.transcript ++ added ∧
      ∀ e ∈ added, e.command = command ∧ e.code = none := by
  by_cases hopen : c.isOpen = true
  · obtain ⟨e, hcommand, htranscript, hresult, -⟩ := docmd_spec network command hopen
    rw [h] at htranscript hresult
    refine ⟨[e], htranscript, fun e' he' => ?_⟩
    rw [List.mem_singleton.mp he']
    refine ⟨hcommand, ?_⟩
    unfold Exchange.code
    cases hreply : e.reply with
    | reply reply' rest =>
      rw [hreply] at hresult
      cases hresult
    | tooLong => rfl
    | cut => rfl
  · rw [docmd_closed hopen] at h
    obtain ⟨-, rfl⟩ := Prod.mk.inj h
    exact ⟨[], (List.append_nil _).symm, by rintro _ ⟨⟩⟩
end Command

end Jasil.Mail
