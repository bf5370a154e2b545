import SlogaBackend.Lib.Adversary
import SlogaBackend.January.IpPolicy

/-!
# The requests january sends

A URL comes from a user, and so does where it redirects to. `Request::open` follows redirects
itself and looks at every URL before it asks for it; the look and the connection each resolve the
name for themselves.

What comes from outside is the answer to a call: upstream's responses, what a lookup finds, what the
cache of lookups holds by then, and how many connections the client makes for a request.
-/

namespace SlogaBackend.January

open Checks

/-! ## URLs and responses -/

inductive Host where
  | domain (domain : String)
  | ipv4 (ip : BitVec 32)
  | ipv6 (ip : BitVec 128)

structure Url where
  scheme : String
  host : Option Host
  /-- `None` for the default port of the scheme. -/
  port : Option UInt16
  /-- The user, the path, the query and the fragment. -/
  rest : String

def Url.portOrKnownDefault (url : Url) : Option UInt16 :=
  url.port.or <| match url.scheme with
    | "http" | "ws" => some 80
    | "https" | "wss" => some 443
    | "ftp" => some 21
    | _ => none

/-- The ports a request may go to. -/
def allowedPorts : List UInt16 := [80, 443, 8080, 8443]

structure HeaderValue where
  bytes : List UInt8

/-- `to_str`: the value, where all of it is visible. -/
def HeaderValue.toStr (value : HeaderValue) : Option String :=
  if value.bytes.all fun b => (32 ≤ b && b < 127) || b = 9 then
    some (String.ofList (value.bytes.map fun b => Char.ofNat b.toNat))
  else none

abbrev StatusCode := ℕ

def isRedirection (status : StatusCode) : Bool := 300 ≤ status && status < 400

def isSuccess (status : StatusCode) : Bool := 200 ≤ status && status < 300

/-- A response, before its body is read. -/
structure Response where
  status : StatusCode
  location : Option HeaderValue
  contentType : Option HeaderValue

inductive ProxyFailure where
  | proxyError
  | invalidOperation
  | internalError

/-- `std::io::ErrorKind`, as far as it is looked at. -/
inductive IoError where
  | permissionDenied
  | other

structure SocketAddr where
  ip : IpAddr
  port : UInt16

/-- The two clients: both use the vetting resolver, and neither follows redirects or has a proxy. -/
inductive Client where
  /-- `CLIENT`. -/
  | plain
  /-- `STREAM_CLIENT`. -/
  | stream

inductive Method where
  | get
  | head

/-- A request, with the headers that are set for it. -/
structure Sent where
  client : Client
  method : Method
  url : Url
  userAgent : Option String
  acceptLanguage : Option String
  range : Option HeaderValue

/-! ## Calls -/

inductive Call where
  | dnsCacheGet (host : String)
  | dnsCacheInsert (host : String) (addrs : List SocketAddr)
  | lookupHost (lookup : String)
  /-- The client takes a request. -/
  | send (request : Sent)
  /-- The connector has addresses to connect to, for a request. -/
  | connect (request : Sent) (addrs : List SocketAddr)
  | receive (request : Sent)

/-- A request makes any number of connections; a lookup or a request may fail. -/
abbrev Reply : Call → Type
  | .dnsCacheGet _ => Option (List SocketAddr)
  | .dnsCacheInsert .. => Unit
  | .lookupHost _ => Except IoError (List SocketAddr)
  | .send _ => ℕ
  | .connect .. => Unit
  | .receive _ => Option Response

abbrev Program (α : Type) := Prog ProxyFailure Call Reply α

structure Parsers (Mime : Type) where
  /-- `Url::parse`. -/
  parse : String → Option Url
  /-- `Url::join`. -/
  join : Url → String → Option Url
  /-- `content_type.parse`. -/
  mime : String → Option Mime
  /-- `mime::APPLICATION_OCTET_STREAM`. -/
  octetStream : Mime

/-! ## Resolving -/

/-- Addresses all of which may be connected to. -/
structure Vetted where
  addrs : List SocketAddr
  nonempty : addrs ≠ []
  allowed : ∀ addr ∈ addrs, isForbidden addr.ip = false

/-- One forbidden address refuses the whole answer. -/
def vetAddresses (addrs : List SocketAddr) : Except IoError Vetted :=
  if h : addrs ≠ [] ∧ ∀ addr ∈ addrs, isForbidden addr.ip = false then .ok ⟨addrs, h.1, h.2⟩
  else .error .permissionDenied

/-- A cached answer is vetted again. -/
def resolveVetted (host : String) : Program (Except IoError Vetted) := do
  match ← op (Call.dnsCacheGet host) with
  | some addrs => return vetAddresses addrs
  | none =>
    let lookup := if ':' ∈ host.toList then host else host ++ ":0"
    match ← op (Call.lookupHost lookup) with
    | .error error => return .error error
    | .ok addrs =>
      match vetAddresses addrs with
      | .error error => return .error error
      | .ok vetted =>
        let _ ← op (Call.dnsCacheInsert host vetted.addrs)
        return .ok vetted

/-- One connection of the client: to the address in the URL, or to what its resolver finds. -/
def connect (request : Sent) : Program Unit :=
  match request.url.host with
  | some (.domain name) => do
    match ← resolveVetted name with
    | .ok vetted => op (Call.connect request vetted.addrs)
    | .error _ => return ()
  | some (.ipv4 ip) => op (Call.connect request
      [⟨.v4 ip, request.url.portOrKnownDefault.getD 0⟩])
  | some (.ipv6 ip) => op (Call.connect request
      [⟨.v6 ip, request.url.portOrKnownDefault.getD 0⟩])
  | none => return ()

/-- `send().await`. -/
def send (request : Sent) : Program (Option Response) := do
  let connections ← op (Call.send request)
  let _ ← (connect request).times connections
  op (Call.receive request)

/-! ## The check -/

structure IPRequest where
  url : Url
  ip : IpAddr
  blocked : Bool

section Requests

variable {Mime : Type} (parsers : Parsers Mime) (blockedDomains : List String)

def urlIsBlacklisted (url : Url) : Program IPRequest := do
  check (refuseIf (¬ ∃ port ∈ url.portOrKnownDefault, port ∈ allowedPorts) .invalidOperation)
  match url.host with
  | some (.ipv4 ip) =>
    check (refuseIf (isForbidden (.v4 ip)) .invalidOperation)
    return ⟨url, .v4 ip, false⟩
  | some (.ipv6 ip) =>
    check (refuseIf (isForbidden (.v6 ip)) .invalidOperation)
    return ⟨url, .v6 ip, false⟩
  | some (.domain domain) =>
    check (refuseIf ('.' ∉ domain.toList ∨ domain ∈ blockedDomains) .invalidOperation)
    match ← resolveVetted domain with
    | .ok vetted => return ⟨url, (vetted.addrs.head vetted.nonempty).ip, false⟩
    | .error .permissionDenied => check (.error .invalidOperation)
    | .error .other => check (.error .proxyError)
  | none => check (.error .proxyError)

/-! ## Requests -/

/-- What `RE_USER_AGENT_SPOOFING_AS_DISCORD` matches the start of, before one more character and
`com`. -/
def spoofed : List String :=
  ["twitter", "vxtwitter", "fxtwitter", "x", "fixvx", "fixupx", "old.reddit", "new.reddit",
    "www.reddit"]

def spoofsDiscord (host : String) : Bool :=
  spoofed.any fun site => site.toList.isPrefixOf host.toList &&
    match host.toList.drop site.length with
    | [] => false
    | c :: rest => c ≠ '\n' && "com".toList.isPrefixOf rest

/-- No address is spoofed for. -/
def userAgent : Host → String
  | .domain domain =>
    if spoofsDiscord domain then
      "Mozilla/5.0 (compatible; Discordbot/2.0; +https://discordapp.com)"
    else "Mozilla/5.0 (compatible; January/2.0; +https://github.com/stoatchat/stoatchat)"
  | _ => "Mozilla/5.0 (compatible; January/2.0; +https://github.com/stoatchat/stoatchat)"

def mimeForStatus (response : Response) : Except ProxyFailure Mime := do
  if !isSuccess response.status then return parsers.octetStream
  let contentType ← okOr response.contentType .proxyError
  let contentType ← okOr contentType.toStr .proxyError
  okOr (parsers.mime contentType) .proxyError

/-- Where a redirect leads to. -/
def redirectTarget (url : Url) (response : Response) : Except ProxyFailure Url := do
  let location ← okOr response.location .proxyError
  let location ← okOr location.toStr .proxyError
  okOr (parsers.join url location) .internalError

structure Request (Mime : Type) where
  response : Response
  mime : Mime

/-- One turn of the loop: a request, and what is made of the response. -/
def openHop (client : Client) (host : Host) (range : Option HeaderValue)
    (accept : StatusCode → Bool) (url : Url) (redirected : Response → Program (Request Mime)) :
    Program (Request Mime) := do
  let response ← send {
    client, method := .get, url, userAgent := some (userAgent host)
    acceptLanguage := some "en-US,en;q=0.5", range }
  match response with
  | none => check (.error .proxyError)
  | some response =>
    if isRedirection response.status then redirected response
    else if !accept response.status then check (.error .proxyError)
    else
      let mime ← check (mimeForStatus parsers response)
      return ⟨response, mime⟩

/-- The loop, with so many redirects left. -/
def openLoop (client : Client) (host : Host) (range : Option HeaderValue)
    (accept : StatusCode → Bool) : ℕ → Url → Program (Request Mime)
  | 0, url => openHop parsers client host range accept url fun _ => check (.error .proxyError)
  | redirects + 1, url => openHop parsers client host range accept url fun response => do
    let url ← check (redirectTarget parsers url response)
    let blocker ← urlIsBlacklisted blockedDomains url
    if blocker.blocked then check (.error .invalidOperation)
    else openLoop client host range accept redirects url

/-- `Request::open`. -/
def openRequest (client : Client) (url : Url) (range : Option HeaderValue)
    (accept : StatusCode → Bool) : Program (Request Mime) := do
  let host ← check (okOr url.host .proxyError)
  let blocker ← urlIsBlacklisted blockedDomains url
  if blocker.blocked then check (.error .invalidOperation)
  else openLoop parsers blockedDomains client host range accept 5 url

def acceptSuccess (status : StatusCode) : Bool := isSuccess status

/-- A whole track, a part of one, or a range past its end. -/
def acceptAudioStream (status : StatusCode) : Bool := status ∈ [200, 206, 416]

def newWith (client : Client) (url : Url) (range : Option HeaderValue) : Program (Request Mime) :=
  openRequest parsers blockedDomains client url range acceptSuccess

def newFromStr (url : String) : Program (Request Mime) := do
  let properUrl ← check (okOr (parsers.parse url) .proxyError)
  newWith parsers blockedDomains .plain properUrl none

def openAudioStream (url : String) (range : Option HeaderValue) : Program (Request Mime) := do
  let url ← check (okOr (parsers.parse url) .proxyError)
  openRequest parsers blockedDomains .stream url range acceptAudioStream

/-- `Request::exists`. -/
def existsUrl (url : Url) : Program Bool := do
  match ← (urlIsBlacklisted blockedDomains url).attempt with
  | .error _ => return false
  | .ok _ =>
    let response ← send ⟨.plain, .head, url, none, none, none⟩
    return response.any fun response => isSuccess response.status

end Requests

/-! ## What every request meets -/

/-- A URL that may be asked for. -/
structure MayFetch (blockedDomains : List String) (url : Url) : Prop where
  port : ∃ port ∈ url.portOrKnownDefault, port ∈ allowedPorts
  name : ∀ domain, url.host = some (.domain domain) → '.' ∈ domain.toList ∧ domain ∉ blockedDomains
  ipv4 : ∀ ip, url.host = some (.ipv4 ip) → isForbidden (.v4 ip) = false
  ipv6 : ∀ ip, url.host = some (.ipv6 ip) → isForbidden (.v6 ip) = false

/-- At most six requests are sent, each to a URL that may be asked for, and nothing else is connected
to for them than addresses that are not forbidden. -/
def guarded (blockedDomains : List String) : Discipline Call Reply ℕ where
  init := 0
  note sent
    | .send _, _ => sent + 1
    | _, _ => sent
  allowed sent
    | .send request => sent < 6 ∧ MayFetch blockedDomains request.url
    | .connect request addrs =>
      MayFetch blockedDomains request.url ∧ ∀ addr ∈ addrs, isForbidden addr.ip = false
    | _ => True
  possible _ _ := True

section Guarded

open Prog

variable {blockedDomains : List String}

theorem resolveVetted_frames (host : String) :
    Frames (guarded blockedDomains) id (resolveVetted host) := by
  refine Frames.call (fun _ => trivial) (fun _ _ => rfl) fun cached => ?_
  cases cached with
  | some addrs => exact Frames.done _
  | none =>
    refine Frames.call (fun _ => trivial) (fun _ _ => rfl) fun found => ?_
    cases found with
    | error error => exact Frames.done _
    | ok addrs =>
      show Frames _ _ (match vetAddresses addrs with | .error error => _ | .ok vetted => _)
      cases vetAddresses addrs with
      | error error => exact Frames.done _
      | ok vetted => exact Frames.call (fun _ => trivial) (fun _ _ => rfl) fun _ => Frames.done _

variable {request : Sent}

theorem connect_frames (hmay : MayFetch blockedDomains request.url) :
    Frames (guarded blockedDomains) id (connect request) := by
  unfold connect
  cases hhs : request.url.host with
  | none => exact Frames.done _
  | some host =>
    cases host with
    | domain name =>
      refine (resolveVetted_frames name).bind fun resolved => ?_
      cases resolved with
      | error error => exact Frames.done _
      | ok vetted =>
        exact Frames.call (fun _ => ⟨hmay, vetted.allowed⟩) (fun _ _ => rfl) fun _ => Frames.done _
    | ipv4 ip =>
      refine Frames.call (fun _ => ⟨hmay, fun addr had => ?_⟩) (fun _ _ => rfl)
        fun _ => Frames.done _
      obtain rfl := mem_singleton.mp had
      exact hmay.ipv4 ip hhs
    | ipv6 ip =>
      refine Frames.call (fun _ => ⟨hmay, fun addr had => ?_⟩) (fun _ _ => rfl)
        fun _ => Frames.done _
      obtain rfl := mem_singleton.mp had
      exact hmay.ipv6 ip hhs

theorem send_obeys {sent : ℕ} (hsn : sent < 6) (hmay : MayFetch blockedDomains request.url) :
    (send request).Obeys (guarded blockedDomains) (fun sent' _ => sent' = sent + 1) sent := by
  refine ⟨⟨hsn, hmay⟩, fun connections _ => ?_⟩
  refine ((connect_frames hmay).times connections).obeys_bind (fun sent' _ h => ?_) fun _ _ h => h
  exact ⟨trivial, fun _ _ => h⟩

/-- **What the check lets through may be asked for.** -/
theorem urlIsBlacklisted_obeys (url : Url) (sent : ℕ) :
    (urlIsBlacklisted blockedDomains url).Obeys (guarded blockedDomains)
      (fun sent' result => sent' = sent ∧ ∀ checked, result = .ok checked →
        MayFetch blockedDomains url) sent := by
  refine Obeys.check_bind (fun _ hpr => ?_) fun _ _ => ⟨rfl, nofun⟩
  replace hpr := not_not.mp (refuseIf_eq_ok.mp hpr)
  cases hhs : url.host with
  | none => exact ⟨rfl, nofun⟩
  | some host =>
    cases host with
    | ipv4 ip =>
      refine Obeys.check_bind (fun _ hall => ⟨rfl, fun _ _ => ?_⟩) fun _ _ => ⟨rfl, nofun⟩
      have hall := eq_false_iff.mpr (refuseIf_eq_ok.mp hall)
      exact ⟨hpr, by simp [hhs], by simpa [hhs] using hall, by simp [hhs]⟩
    | ipv6 ip =>
      refine Obeys.check_bind (fun _ hall => ⟨rfl, fun _ _ => ?_⟩) fun _ _ => ⟨rfl, nofun⟩
      have hall := eq_false_iff.mpr (refuseIf_eq_ok.mp hall)
      exact ⟨hpr, by simp [hhs], by simp [hhs], by simpa [hhs] using hall⟩
    | domain domain =>
      refine Obeys.check_bind (fun _ hnm => ?_) fun _ _ => ⟨rfl, nofun⟩
      have hnm : '.' ∈ domain.toList ∧ domain ∉ blockedDomains := by
        simpa [not_or] using refuseIf_eq_ok.mp hnm
      have hmay : MayFetch blockedDomains url :=
        ⟨hpr, by simpa [hhs] using hnm, by simp [hhs], by simp [hhs]⟩
      refine (resolveVetted_frames domain).obeys_bind (fun sent' resolved h => ?_)
        fun _ _ h => ⟨h, nofun⟩
      rcases resolved with (_ | _) | vetted
      · exact ⟨h, nofun⟩
      · exact ⟨h, nofun⟩
      · exact ⟨h, fun _ _ => hmay⟩

variable {Mime : Type} {parsers : Parsers Mime}

section

variable {client : Client} {host : Host} {range : Option HeaderValue} {accept : StatusCode → Bool}

theorem openHop_obeys {url : Url} {redirected : Response → Program (Request Mime)}
    {sent : ℕ} (hsn : sent < 6) (hmay : MayFetch blockedDomains url)
    (hred : ∀ response, (redirected response).Obeys (guarded blockedDomains)
      (fun sent' _ => sent' ≤ 6) (sent + 1)) :
    (openHop parsers client host range accept url redirected).Obeys (guarded blockedDomains)
      (fun sent' _ => sent' ≤ 6) sent := by
  refine Obeys.bind (Obeys.mono (fun sent' result h => ?_) (send_obeys hsn hmay))
  subst h
  rcases result with _ | _ | response
  · exact hsn
  · exact hsn
  · show Obeys _ _ _ (if isRedirection response.status then _ else if _ then _ else _)
    split_ifs
    · exact hred response
    · exact hsn
    · exact Obeys.check_bind (fun _ _ => hsn) fun _ _ => hsn

/-- **A chain of redirects**: each hop is checked before it is asked for. -/
theorem openLoop_obeys (redirects : ℕ) :
    ∀ {url : Url} {sent : ℕ}, sent + redirects < 6 → MayFetch blockedDomains url →
      (openLoop parsers blockedDomains client host range accept redirects url).Obeys
        (guarded blockedDomains) (fun sent' _ => sent' ≤ 6) sent := by
  induction redirects with
  | zero => exact fun hsn hmay => openHop_obeys hsn hmay fun _ => Nat.succ_le_of_lt hsn
  | succ redirects ih =>
    intro url sent hsn hmay
    refine openHop_obeys (by omega) hmay fun response => ?_
    refine Obeys.check_bind (fun target _ => ?_) fun _ _ => by omega
    refine Obeys.bind (Obeys.mono (fun sent' result h => ?_) (urlIsBlacklisted_obeys target _))
    obtain ⟨rfl, hchec⟩ := h
    cases result with
    | error error => show sent + 1 ≤ 6; omega
    | ok checked =>
      show Obeys _ _ _ (if checked.blocked then _ else _)
      split_ifs
      · show sent + 1 ≤ 6; omega
      · exact ih (by omega) (hchec checked rfl)

end

theorem openRequest_obeys (client : Client) (url : Url) (range : Option HeaderValue)
    (accept : StatusCode → Bool) :
    (openRequest parsers blockedDomains client url range accept).Obeys (guarded blockedDomains)
      (fun sent _ => sent ≤ 6) 0 := by
  refine Obeys.check_bind (fun host _ => ?_) fun _ _ => by omega
  refine Obeys.bind (Obeys.mono (fun sent result h => ?_) (urlIsBlacklisted_obeys url 0))
  obtain ⟨rfl, hchec⟩ := h
  cases result with
  | error error => exact Nat.zero_le 6
  | ok checked =>
    show Obeys _ _ _ (if checked.blocked then _ else _)
    split_ifs
    · exact Nat.zero_le 6
    · exact openLoop_obeys 5 (by omega) (hchec checked rfl)

theorem existsUrl_obeys (url : Url) :
    (existsUrl blockedDomains url).Obeys (guarded blockedDomains) (fun sent _ => sent ≤ 6) 0 := by
  refine Obeys.bind (Obeys.attempt ((urlIsBlacklisted_obeys url 0).mono fun sent result h => ?_))
  obtain ⟨rfl, hchec⟩ := h
  cases result with
  | error error => exact Nat.zero_le 6
  | ok checked =>
    refine Obeys.bind (Obeys.mono (fun sent response h => ?_)
      (send_obeys (by omega) (hchec checked rfl)))
    subst h
    cases response with
    | error error | ok response => show 1 ≤ 6; omega

def Call.isSend : Call → Bool
  | .send _ => true
  | _ => false

theorem after_eq_countP (record : List (Exchange Call Reply)) :
    (guarded blockedDomains).after record = record.countP fun exchange => exchange.1.isSend := by
  induction record using List.reverseRecOn with
  | nil => rfl
  | append_singleton record exchange ih =>
    rw [Discipline.after_concat, ih, List.countP_append, List.countP_singleton]
    obtain ⟨call, answer⟩ := exchange
    cases call <;> rfl

/-- What is asked of the record of a request. -/
structure Guarded (blockedDomains : List String) (record : List (Exchange Call Reply)) : Prop where
  sends : ∀ request answer, ⟨.send request, answer⟩ ∈ record → MayFetch blockedDomains request.url
  connects : ∀ request addrs answer, ⟨.connect request addrs, answer⟩ ∈ record →
    ∀ addr ∈ addrs, isForbidden addr.ip = false
  count : (record.countP fun exchange => exchange.1.isSend) ≤ 6

theorem Guarded.of_obeys {α : Type} {p : Program α}
    (hp : p.Obeys (guarded blockedDomains) (fun sent _ => sent ≤ 6) 0)
    (strategy : Strategy Call Reply) : Guarded blockedDomains (p.play strategy).1 := by
  have hin : p.Obeys (guarded blockedDomains) (fun sent _ => sent ≤ 6)
      (guarded blockedDomains).init := hp
  obtain ⟨hallo, hcnt⟩ : (guarded blockedDomains).Allows (p.play strategy).1 ∧ _ :=
    hin.play fun _ _ => trivial
  refine ⟨fun request answer hmem => ?_, fun request addrs answer hmem => ?_, ?_⟩
  · obtain ⟨before, later, heq⟩ := append_of_mem hmem
    exact (hallo before _ later heq).2
  · obtain ⟨before, later, heq⟩ := append_of_mem hmem
    exact (hallo before _ later heq).2
  · rwa [after_eq_countP] at hcnt

/-- **January asks only for what it may, whoever answers.** -/
theorem every_request_is_vetted (parsers : Parsers Mime) (blockedDomains : List String)
    (strategy : Strategy Call Reply) :
    (∀ client url range,
      Guarded blockedDomains ((newWith parsers blockedDomains client url range).play strategy).1) ∧
      (∀ url, Guarded blockedDomains ((newFromStr parsers blockedDomains url).play strategy).1) ∧
      (∀ url range, Guarded blockedDomains
        ((openAudioStream parsers blockedDomains url range).play strategy).1) ∧
      ∀ url, Guarded blockedDomains ((existsUrl blockedDomains url).play strategy).1 := by
  refine ⟨fun client url range => .of_obeys (openRequest_obeys ..) strategy,
    fun url => .of_obeys ?_ strategy, fun url range => .of_obeys ?_ strategy,
    fun url => .of_obeys (existsUrl_obeys url) strategy⟩
  · exact Obeys.check_bind (fun _ _ => openRequest_obeys ..) fun _ _ => Nat.zero_le 6
  · exact Obeys.check_bind (fun _ _ => openRequest_obeys ..) fun _ _ => Nat.zero_le 6

end Guarded

end SlogaBackend.January
