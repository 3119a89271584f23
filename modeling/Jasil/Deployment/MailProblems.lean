import Jasil.Deployment.Capabilities

/-! # Mail settings
`mail_problems` lists everything that is wrong with the mail settings, in the order in which a build raises them.
What it asks the address parser, the host name rules and the resolver is a parameter.

* **`urlsplit`**: the parts of a URI.
* **`partition_of_memory`**: settings without a problem whose scheme is `memory` have the literal form that the
  consistency check looks for. -/

namespace Jasil.Deployment

/-! ## Splitting -/

/-- What the rules ask of the libraries and of the network. -/
structure MailEnvironment where
  /-- `_check_bracketed_netloc` accepts an address in brackets. -/
  bracketsValid : List Char → Bool
  /-- `_checknetloc` accepts the characters. -/
  netlocValid : List Char → Bool
  /-- `parse_address` accepts the sender. -/
  validAddress : String → Bool
  /-- `is_valid_hostname`. -/
  validHostname : String → Bool
  /-- `ipaddress.ip_address` accepts the host. -/
  ipAddress : String → Bool
  /-- `non_public_rejection_reason`. -/
  nonPublicReason : String → Option String
  /-- `is_unresolvable`. -/
  unresolvable : String → Bool

/-- What stands before the first `c`, and after it when there is one. -/
def cut (c : Char) : List Char → List Char × Option (List Char)
  | [] => ([], none)
  | d :: rest => if d = c then ([], some rest) else (d :: (cut c rest).1, (cut c rest).2)

/-- A string is what stands before its first `c`, that `c` and the rest. -/
theorem cut_eq (c : Char) (s : List Char) :
    s = (cut c s).1 ++ (match (cut c s).2 with
      | none => []
      | some rest => c :: rest) := by
  induction s with
  | nil => rfl
  | cons d rest ih =>
    rw [cut]
    by_cases hd : d = c
    · rw [if_pos hd, hd]
      rfl
    · rw [if_neg hd, List.cons_append]
      exact congrArg (d :: ·) ih

/-- `SplitResult`. -/
structure SplitResult where
  scheme : List Char
  netloc : List Char
  path : List Char
  query : List Char
  fragment : List Char

/-- `scheme_chars`. -/
def schemeChar (c : Char) : Bool := c.isAlphanum || c = '+' || c = '-' || c = '.'

/-- What stands before the first colon, when it can be a scheme. -/
def splitScheme (url : List Char) : List Char × List Char :=
  match cut ':' url with
  | (c :: head, some rest) =>
    if c.isAlpha ∧ (c :: head).all schemeChar then ((c :: head).map Char.toLower, rest) else ([], url)
  | _ => ([], url)

/-- `_splitnetloc`. -/
def splitNetloc (url : List Char) : List Char × List Char :=
  if "//".toList <+: url then
    ((url.drop 2).takeWhile fun c => c ∉ "/?#".toList, (url.drop 2).dropWhile fun c => c ∉ "/?#".toList)
  else ([], url)

/-- `urlsplit`, of a text without spaces and unprintable characters; `none` when it raises. -/
def urlsplit (env : MailEnvironment) (url : List Char) : Option SplitResult :=
  let (scheme, url) := splitScheme url
  let (netloc, url) := splitNetloc url
  if ('[' ∈ netloc) ≠ (']' ∈ netloc) then none
  else if '[' ∈ netloc ∧ env.bracketsValid netloc = false then none
  else
    let (url, fragment) := cut '#' url
    let (path, query) := cut '?' url
    if env.netlocValid netloc then some ⟨scheme, netloc, path, query.getD [], fragment.getD []⟩ else none

namespace SplitResult

/-- What follows the last `@` of the netloc. -/
def hostinfo (parts : SplitResult) : List Char :=
  (parts.netloc.reverse.takeWhile (· ≠ '@')).reverse

/-- `hostname`, as it is written, and the text of the port. -/
def hostAndPort (parts : SplitResult) : List Char × List Char :=
  match cut '[' parts.hostinfo with
  | (_, some bracketed) =>
    let (hostname, after) := cut ']' bracketed
    (hostname, ((cut ':' (after.getD [])).2).getD [])
  | (_, none) =>
    let (hostname, port) := cut ':' parts.hostinfo
    (hostname, port.getD [])

/-- `hostname`; a zone is not lowered. -/
def hostname (u : UnicodeData) (parts : SplitResult) : Option String :=
  match cut '%' parts.hostAndPort.1 with
  | ([], none) => none
  | (host, none) => some (String.ofList (u.lower host))
  | (host, some zone) => some (String.ofList (u.lower host ++ '%' :: zone))

/-- `port`; `none` when it raises. -/
def port (parts : SplitResult) : Option (Option ℕ) :=
  match parts.hostAndPort.2 with
  | [] => some none
  | digits =>
    if digits.all Char.isDigit then
      let n := digits.foldl (fun n c => 10 * n + (c.toNat - '0'.toNat)) 0
      if n ≤ 65535 then some (some n) else none
    else none

end SplitResult

/-! ## Problems -/

/-- `MailProblemCode`. -/
inductive MailProblemCode
  | invalidUri
  | unsupportedScheme
  | uriCarriesCredentials
  | uriHasExtraParts
  | invalidHost
  | invalidPort
  | missingFromAddress
  | invalidFromAddress
  | invalidEhloHostname
  | credentialsIncomplete
  | credentialsNotAscii
  | memoryHasHost
  | memoryCleartextUnsupported
  | cleartextWithImplicitTls
  | cleartextWithCredentials
  | cleartextPublicHost
  | cleartextHostUnresolvable
  deriving DecidableEq, Repr

/-- A single reason why mail settings cannot be used. -/
structure MailProblem where
  code : MailProblemCode
  field : String
  message : String

/-- `SMTP_PORTS`. -/
def smtpPorts : List (List Char × ℕ) := [("smtp".toList, 587), ("smtps".toList, 465)]

/-- The parts of a mail URI, when it has the literal form. -/
def splitMailUri (u : UnicodeData) (env : MailEnvironment) (uri : String) :
    Option (SplitResult × Option ℕ) :=
  if uri.toList.all u.printable ∧ ' ' ∉ uri.toList ∧ "://".toList <:+: uri.toList then do
    let parts ← urlsplit env uri.toList
    let port ← parts.port
    return (parts, port)
  else none

/-- What is wrong with the parts of a mail URI. -/
def mailUriProblem (parts : SplitResult) : Option MailProblem :=
  if parts.scheme ≠ "memory".toList ∧ parts.scheme ∉ smtpPorts.map Prod.fst then
    let scheme := if parts.scheme = [] then "(none)" else String.ofList parts.scheme
    some ⟨.unsupportedScheme, "mail.uri", "Unsupported mail.uri scheme: '" ++ scheme ++ "'"⟩
  else if '@' ∈ parts.netloc then
    some ⟨.uriCarriesCredentials, "mail.uri",
      "mail.uri must not carry credentials; use mail.username and mail.password"⟩
  else if parts.path ≠ [] ∨ parts.query ≠ [] ∨ parts.fragment ≠ [] then
    some ⟨.uriHasExtraParts, "mail.uri",
      "mail.uri must be scheme://host[:port] with no path, query or fragment"⟩
  else none

/-- `if p: add(…)`. -/
def problemIf (p : Prop) [Decidable p] (code : MailProblemCode) (field message : String) : List MailProblem :=
  if p then [⟨code, field, message⟩] else []

/-- The checks that do not depend on the URI. -/
def mailAccountProblems (env : MailEnvironment) (mail : MailSettings) : List MailProblem :=
  problemIf ((given mail.username).isSome ≠ (given mail.password).isSome) .credentialsIncomplete
      (if (given mail.username).isSome then "mail.password" else "mail.username")
      "mail.username and mail.password must be set together"
    ++ problemIf (mail.fromAddress ≠ "" ∧ env.validAddress mail.fromAddress = false) .invalidFromAddress
      "mail.from_address" "mail.from_address is not a valid email address"
    ++ problemIf (∃ hostname ∈ mail.ehloHostname, env.validHostname hostname = false) .invalidEhloHostname
      "mail.ehlo_hostname" "mail.ehlo_hostname is not a valid hostname"

/-- What is wrong with the settings of mail that is kept in memory. -/
def mailMemoryProblems (mail : MailSettings) (parts : SplitResult) : List MailProblem :=
  problemIf (parts.netloc ≠ []) .memoryHasHost "mail.uri" "mail.uri for memory:// takes no host"
    ++ problemIf (mail.secure = false) .memoryCleartextUnsupported "mail.secure"
      "mail.secure=False applies only to smtp://"

/-- The host is one. -/
def hostValid (env : MailEnvironment) (hostname : Option String) : Bool :=
  match hostname with
  | none => false
  | some host => env.ipAddress host || env.validHostname host

/-- What is wrong with a relay that is to be reached in cleartext. -/
def cleartextHostProblems (env : MailEnvironment) (hostname : Option String) : List MailProblem :=
  match hostname with
  | none => []
  | some host =>
    match env.nonPublicReason host with
    | none => []
    | some reason =>
      [⟨if env.unresolvable reason then .cleartextHostUnresolvable else .cleartextPublicHost, "mail.secure",
        "mail.secure=False requires a private or loopback relay; the host " ++ reason⟩]

/-- What is wrong with the settings of an SMTP server. -/
def mailSmtpProblems (u : UnicodeData) (env : MailEnvironment) (mail : MailSettings) (parts : SplitResult)
    (port : Option ℕ) : List MailProblem :=
  let hostname := parts.hostname u
  problemIf (hostValid env hostname = false) .invalidHost "mail.uri" "mail.uri has no valid host"
    ++ problemIf (port = some 0) .invalidPort "mail.uri" "mail.uri has an invalid port"
    ++ problemIf (mail.fromAddress = "") .missingFromAddress "mail.from_address"
      "mail.from_address is required for smtp:// and smtps://"
    ++ if mail.secure then []
      else
        problemIf (parts.scheme = "smtps".toList) .cleartextWithImplicitTls "mail.secure"
          "mail.secure=False cannot be combined with smtps://"
        ++ problemIf ((given mail.username).isSome ∨ (given mail.password).isSome) .cleartextWithCredentials
          "mail.secure" "mail.secure=False cannot be combined with credentials"
        ++ if parts.scheme = "smtp".toList ∧ hostValid env hostname = true then
            cleartextHostProblems env hostname
          else []

/-- `smtplib` encodes credentials in ASCII. -/
def mailCredentialProblems (mail : MailSettings) (scheme : Option (List Char)) : List MailProblem :=
  let ascii (value : Option String) : Bool := (value.getD "").toList.all isAscii
  problemIf (scheme ≠ some "memory".toList ∧ ¬(ascii mail.username ∧ ascii mail.password)) .credentialsNotAscii
    (if ascii mail.username then "mail.password" else "mail.username") "username and password must be ASCII"

/-- `mail_problems`: everything wrong with the settings, in the order the builder would raise it. -/
def mailProblems (u : UnicodeData) (env : MailEnvironment) (mail : MailSettings) : List MailProblem :=
  match given mail.uri with
  | none => []
  | some uri =>
    match splitMailUri u env uri with
    | none =>
      ⟨.invalidUri, "mail.uri", "mail.uri is not a valid URI"⟩
        :: (mailAccountProblems env mail ++ mailCredentialProblems mail none)
    | some (parts, port) =>
      match mailUriProblem parts with
      | some problem =>
        problem :: (mailAccountProblems env mail ++ mailCredentialProblems mail (some parts.scheme))
      | none =>
        mailAccountProblems env mail
          ++ (if parts.scheme = "memory".toList then mailMemoryProblems mail parts
            else mailSmtpProblems u env mail parts port)
          ++ mailCredentialProblems mail (some parts.scheme)

/-! ## The literal form -/

section Memory

variable {u : UnicodeData} {env : MailEnvironment} {mail : MailSettings} {uri : String} {parts : SplitResult}

/-- A sign of a scheme is ASCII, and ends nothing. -/
theorem schemeChar_ascii {c : Char} (h : schemeChar c = true) : isAscii c = true ∧ c ≠ ':' ∧ c ≠ '/' := by
  have hc : c.isAlphanum = true ∨ c = '+' ∨ c = '-' ∨ c = '.' := by
    simpa [schemeChar, or_assoc] using h
  rcases hc with hc | rfl | rfl | rfl
  · refine ⟨?_, ?_, ?_⟩
    · change (decide (c.val ≥ 'A'.val ∧ c.val ≤ 'Z'.val) || (c.val ≥ 'a'.val && c.val ≤ 'z'.val)
        || (c.val ≥ '0'.val && c.val ≤ '9'.val)) = true at hc
      simp only [Bool.or_eq_true, Bool.and_eq_true, decide_eq_true_eq, UInt32.le_iff_toNat_le] at hc
      rw [isAscii, decide_eq_true_eq]
      have hval : c.toNat = c.val.toNat := rfl
      have hupper : 'Z'.val.toNat = 90 := rfl
      have hlower : 'z'.val.toNat = 122 := rfl
      have hdigit : '9'.val.toNat = 57 := rfl
      omega
    · rintro rfl
      exact absurd hc (by decide)
    · rintro rfl
      exact absurd hc (by decide)
  · decide
  · decide
  · decide

/-- A URI with a scheme. -/
theorem splitScheme_eq {url scheme rest : List Char} (h : splitScheme url = (scheme, rest)) (hne : scheme ≠ []) :
    ∃ head, url = head ++ ':' :: rest ∧ scheme = head.map Char.toLower ∧ ∀ c ∈ head, schemeChar c = true := by
  have hcut := cut_eq ':' url
  unfold splitScheme at h
  split at h
  · rename_i c head after heq
    split at h
    · rename_i hscheme
      obtain ⟨rfl, rfl⟩ := Prod.mk.inj h
      rw [heq] at hcut
      exact ⟨c :: head, hcut, rfl, List.all_eq_true.mp hscheme.2⟩
    · exact absurd (Prod.mk.inj h).1.symm hne
  · exact absurd (Prod.mk.inj h).1.symm hne

/-- A URI without path, query and fragment has a netloc, or nothing but delimiters after its scheme. -/
theorem urlsplit_rest {url : List Char} (h : urlsplit env url = some parts) (hpath : parts.path = [])
    (hquery : parts.query = []) (hfragment : parts.fragment = []) :
    ∃ rest, splitScheme url = (parts.scheme, rest)
      ∧ ("//".toList <+: rest ∨ ∀ c ∈ rest, c = '#' ∨ c = '?') := by
  unfold urlsplit at h
  rcases hscheme : splitScheme url with ⟨scheme, rest⟩
  rw [hscheme] at h
  dsimp only at h
  by_cases hnetloc : "//".toList <+: rest
  · refine ⟨rest, ?_, .inl hnetloc⟩
    simp only [Option.ite_none_left_eq_some, Option.ite_none_right_eq_some, Option.some.injEq] at h
    rw [← h.2.2.2]
  · -- the path, the query and the fragment are all there is
    rw [splitNetloc, if_neg hnetloc] at h
    simp only [Option.ite_none_left_eq_some, Option.ite_none_right_eq_some, Option.some.injEq] at h
    obtain ⟨-, -, -, rfl⟩ := h
    refine ⟨rest, rfl, .inr fun c hc => ?_⟩
    dsimp only at hpath hquery hfragment
    have hbefore := cut_eq '?' (cut '#' rest).1
    rw [hpath, List.nil_append] at hbefore
    rw [cut_eq '#' rest, List.mem_append] at hc
    rcases hc with hc | hc
    · rw [hbefore] at hc
      cases hrest : (cut '?' (cut '#' rest).1).2 with
      | none => simp [hrest] at hc
      | some after =>
        rw [hrest] at hc hquery
        obtain rfl : after = [] := hquery
        exact .inr (List.mem_singleton.mp hc)
    · cases hrest : (cut '#' rest).2 with
      | none => simp [hrest] at hc
      | some after =>
        rw [hrest] at hc hfragment
        obtain rfl : after = [] := hfragment
        exact .inl (List.mem_singleton.mp hc)

/-- A URI that is split has a scheme and its parts. -/
theorem splitMailUri_eq {port : Option ℕ} (h : splitMailUri u env uri = some (parts, port)) :
    "://".toList <:+: uri.toList ∧ urlsplit env uri.toList = some parts := by
  rw [splitMailUri] at h
  obtain ⟨⟨-, -, hsep⟩, h⟩ := Option.ite_none_right_eq_some.mp h
  obtain ⟨parts', hsplit, h⟩ := Option.bind_eq_some_iff.mp h
  obtain ⟨port', -, h⟩ := Option.bind_eq_some_iff.mp h
  obtain ⟨rfl, -⟩ := Prod.mk.inj (Option.some.inj h)
  exact ⟨hsep, hsplit⟩

/-- A URI without a problem has no path, query or fragment. -/
theorem empty_of_mailUriProblem (h : mailUriProblem parts = none) :
    parts.path = [] ∧ parts.query = [] ∧ parts.fragment = [] := by
  rw [mailUriProblem] at h
  split at h
  · exact nomatch h
  · split at h
    · exact nomatch h
    · split at h
      · exact nomatch h
      · rename_i hextra
        simpa only [not_or, not_not] using hextra

/-- A URI that is split as a mail URI, without anything after its host, is its scheme before a separator. -/
theorem partition_of_split (hsep : "://".toList <:+: uri.toList) (hsplit : urlsplit env uri.toList = some parts)
    (hempty : parts.path = [] ∧ parts.query = [] ∧ parts.fragment = []) (hne : parts.scheme ≠ []) :
    u.lower (partition uri.toList).1 = parts.scheme := by
  obtain ⟨rest, hscheme, hrest⟩ := urlsplit_rest hsplit hempty.1 hempty.2.1 hempty.2.2
  obtain ⟨head, huri, hlower, hhead⟩ := splitScheme_eq hscheme hne
  rcases hrest with ⟨after, hafter⟩ | hrest
  · have hform : uri.toList = head ++ "://".toList ++ after := by
      rw [huri, ← hafter, List.append_assoc]
      rfl
    rw [hform, partition_append (fun hc => (schemeChar_ascii (hhead _ hc)).2.1 rfl),
      lower_ascii (fun c hc => (schemeChar_ascii (hhead c hc)).1), hlower]
  · -- there is no slash
    have hslash : '/' ∈ uri.toList := hsep.subset (by decide)
    rw [huri, List.mem_append, List.mem_cons] at hslash
    rcases hslash with hslash | hslash | hslash
    · exact absurd rfl (schemeChar_ascii (hhead _ hslash)).2.2
    · exact absurd hslash (by decide)
    · exact absurd (hrest _ hslash) (by decide)

/-- **What is built as `memory` has the literal form**: the consistency check sees the scheme that the builder
sees. -/
theorem partition_of_memory (hproblems : mailProblems u env mail = []) (huri : given mail.uri = some uri)
    (hsplit : urlsplit env uri.toList = some parts) (hscheme : parts.scheme = "memory".toList) :
    u.lower (partition uri.toList).1 = "memory".toList := by
  rw [mailProblems, huri] at hproblems
  dsimp only at hproblems
  cases hform : splitMailUri u env uri with
  | none =>
    rw [hform] at hproblems
    exact nomatch hproblems
  | some split =>
    obtain ⟨parts', port⟩ := split
    rw [hform] at hproblems
    dsimp only at hproblems
    obtain ⟨hsep, hsplit'⟩ := splitMailUri_eq hform
    obtain rfl := Option.some.inj (hsplit.symm.trans hsplit')
    cases hparts : mailUriProblem parts with
    | some problem =>
      rw [hparts] at hproblems
      exact nomatch hproblems
    | none =>
      rw [← hscheme]
      refine partition_of_split hsep hsplit (empty_of_mailUriProblem hparts) ?_
      rw [hscheme]
      decide

end Memory

end Jasil.Deployment
