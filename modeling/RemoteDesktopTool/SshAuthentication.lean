import RemoteDesktopTool.SecretEquality
import RemoteDesktopTool.SecretStore

namespace RemoteDesktopTool

inductive CredentialSource
  | prompt
  | stored (reference : StoredSecret)
deriving DecidableEq, Repr

structure PrivateKeyAuth where
  path : Text
  passphrase : CredentialSource
deriving DecidableEq, Repr

inductive AuthMethod
  | none
  | password (source : CredentialSource)
  | privateKey (key : PrivateKeyAuth)
  | agent (identity : Option Text)
  | keyboardInteractive (source : CredentialSource)
deriving DecidableEq, Repr

/-- The errors of the SSH library that are told apart. -/
inductive RusshErrorKind
  | disconnect
  | timeout
  | inconsistent
  | kexInit
  | negotiation
  | tooManyAuthAttempts
  | socket
  | socketDisconnect
  | addressFamilyNotSupported
  | keyDecryption
  | key
  | other
deriving DecidableEq, Repr

structure RusshError where
  kind : RusshErrorKind
  text : Text
deriving DecidableEq, Repr

def RusshErrorKind.code : RusshErrorKind → ErrorCode
  | .disconnect => .network
  | .timeout => .timeout
  | .inconsistent => .protocol
  | .kexInit | .negotiation => .protocol
  | .tooManyAuthAttempts => .authentication
  | .socket | .socketDisconnect | .addressFamilyNotSupported => .network
  | .keyDecryption | .key => .crypto
  | .other => .protocol

def classify (error : RusshError) (context : Text) : RdtError :=
  (RdtError.new error.kind.code error.text).withContext "operation" context

/-- What the server says to a request. -/
inductive AuthAnswer
  | accept
  | refuse
  | challenge
deriving DecidableEq, Repr

/-- The requests that the client sends; `κ` is the type of private keys. -/
inductive AuthRequest (κ : Type)
  | none (username : Text)
  | password (username password : Text)
  | publickey (username : Text) (key : κ)
  | keyboardInteractive (username submethods : Text)
  | next (answer : Text)

/-- A server answers each request from what it has been sent, the request included, unless the
call fails. -/
abbrev AuthServer (κ : Type) := List (AuthRequest κ) → Except RusshError AuthAnswer

structure AuthExchange (κ : Type) where
  requests : List (AuthRequest κ)
  answers : List AuthAnswer

def AuthExchange.start {κ : Type} : AuthExchange κ := ⟨[], []⟩

/-- Where secrets and keys come from. -/
structure KeySources (κ : Type) where
  home : Text
  fetch : StoredSecret → RdtResult (Option Secret)
  readToString : Text → Except Text Text
  decodeSecretKey : Text → Option Text → Except Text κ

/-- `Path::join`; an absolute path takes the place of the directory. -/
def joinPath (directory path : Text) : Text :=
  if path.head? = some '/' then path
  else if directory = [] ∨ directory.getLast? = some '/' then directory ++ path
  else directory ++ ['/'] ++ path

def expandTilde (home path : Text) : Text :=
  if path = ['~'] then home
  else
    match Text.stripFront ['~', '/'] path with
    | some rest => joinPath home rest
    | none => path

section

variable {κ : Type}

def resolveSecret (sources : KeySources κ) (source : CredentialSource) (what : Text) :
    RdtResult Secret :=
  match source with
  | .prompt =>
    .error (.new .authentication ("the ".toList ++ what ++ " must be entered by the user".toList))
  | .stored reference => do
    match ← sources.fetch reference with
    | some secret => .ok secret
    | none => .error (.new .keystore "the stored secret was not found".toList)

/-- The passphrase of a key; one that is not stored is no passphrase. -/
def keyPassphrase (sources : KeySources κ) : CredentialSource → RdtResult (Option Secret)
  | .prompt => .ok none
  | .stored reference => (sources.fetch reference).map fun secret => some (secret.getD .empty)

def loadPrivateKey (sources : KeySources κ) (key : PrivateKeyAuth) : RdtResult κ := do
  let path := expandTilde sources.home key.path
  let text ← (sources.readToString path).mapError fun error =>
    (RdtError.new .io ("cannot read the private key: ".toList ++ error)).withContext "path" path
  let failed (what error : Text) : RdtError :=
    (RdtError.new .crypto ("cannot ".toList ++ what ++ " the private key: ".toList ++ error)
      ).withContext "path" path
  match ← keyPassphrase sources key.passphrase with
  | some passphrase =>
    if passphrase.isEmpty then
      (sources.decodeSecretKey text none).mapError (failed "parse".toList)
    else
      (sources.decodeSecretKey text (some passphrase.expose)).mapError (failed "decrypt".toList)
  | none => (sources.decodeSecretKey text none).mapError (failed "parse".toList)

namespace AuthExchange

/-- A call of the library: what the server answers, and the exchange with it. -/
def ask (server : AuthServer κ) (request : AuthRequest κ) (exchange : AuthExchange κ) :
    RdtResult AuthAnswer × AuthExchange κ :=
  let requests := exchange.requests ++ [request]
  match server requests with
  | .ok answer => (.ok answer, ⟨requests, exchange.answers ++ [answer]⟩)
  | .error error => (.error (classify error "authentication".toList), ⟨requests, exchange.answers⟩)

/-- What the password and the public key method make of the answer. -/
def settle (refusal : Text) :
    RdtResult AuthAnswer × AuthExchange κ → RdtResult Unit × AuthExchange κ
  | (.ok answer, exchange) =>
    if answer = .accept then (.ok (), exchange)
    else (.error (.new .authentication refusal), exchange)
  | (.error error, exchange) => (.error error, exchange)

end AuthExchange

structure TerminalSize where
  cols : UInt32
  rows : UInt32
deriving DecidableEq, Repr

inductive SshCommand
  | interactiveShell
  | command (command : Text)
deriving DecidableEq, Repr

structure SshConnection where
  host : Text
  port : UInt16
  username : Text
  auth : AuthMethod
  command : SshCommand
  size : TerminalSize
  term : Text
  environment : List Text
deriving DecidableEq, Repr

open AuthExchange in
def authenticate (connection : SshConnection) (sources : KeySources κ) (server : AuthServer κ) :
    RdtResult Unit × AuthExchange κ :=
  let username := connection.username
  match connection.auth with
  | .none =>
    -- The answer is dropped.
    let (answer, exchange) := start.ask server (.none username)
    (answer.map fun _ => (), exchange)
  | .password source =>
    match resolveSecret sources source "password".toList with
    | .error error => (.error error, start)
    | .ok password =>
      settle "the server refused the password".toList
        (start.ask server (.password username password.expose))
  | .privateKey key =>
    match loadPrivateKey sources key with
    | .error error => (.error error, start)
    | .ok key =>
      settle "the server refused the public key".toList
        (start.ask server (.publickey username key))
  | .agent _ => (.error (.new .authentication "no SSH agent socket is available".toList), start)
  | .keyboardInteractive _ =>
    match start.ask server (.keyboardInteractive username []) with
    | (.error error, exchange) => (.error error, exchange)
    | (.ok _, exchange) =>
      -- The loop is left behind its first round, whatever the answer is.
      let (answer, exchange) := exchange.ask server (.next [])
      (answer.map fun _ => (), exchange)

/-- How the connection to the server is made. -/
inductive ClientConnect
  | timedOut
  | failed (error : RusshError)
  | connected
deriving DecidableEq, Repr

/-- What `connect` meets besides the authentication, `none` for a request that succeeds. -/
structure ConnectOutcomes where
  knownHosts : RdtResult Unit
  connect : ClientConnect
  openSession : Option RusshError
  requestPty : Option RusshError
  command : Option RusshError

inductive ChannelRequest
  | openSession
  | requestPty (term : Text) (size : TerminalSize)
  | setEnv (name value : Text)
  | shell
  | exec (command : Text)
deriving DecidableEq, Repr

def SshConnection.address (connection : SshConnection) : Text :=
  connection.host ++ [':'] ++ decimal connection.port.toNat

/-- The part of `connect` behind the authentication, with the requests on the channel. -/
def openShell (connection : SshConnection) (outcomes : ConnectOutcomes) :
    RdtResult Unit × List ChannelRequest :=
  let opened := [.openSession]
  let terminal := opened ++ [.requestPty connection.term connection.size]
  let environment := connection.environment.filterMap fun assignment =>
    (Text.splitOnce '=' assignment).map fun (name, value) => ChannelRequest.setEnv name value
  let command : ChannelRequest :=
    match connection.command with
    | .interactiveShell => .shell
    | .command command => .exec command
  match outcomes.openSession, outcomes.requestPty, outcomes.command with
  | some error, _, _ => (.error (classify error connection.address), opened)
  | none, some error, _ => (.error (classify error connection.address), terminal)
  | none, none, some error =>
    (.error (classify error connection.address), terminal ++ environment ++ [command])
  | none, none, none => (.ok (), terminal ++ environment ++ [command])

/-- The result of a connection attempt, what was said to authenticate, and what was asked of a
channel. -/
structure SshAttempt (κ : Type) where
  result : RdtResult Unit
  exchange : AuthExchange κ
  channel : List ChannelRequest

def SshAttempt.failed (error : RdtError) : SshAttempt κ := ⟨.error error, .start, []⟩

def SshConnection.connect (connection : SshConnection) (sources : KeySources κ)
    (server : AuthServer κ) (outcomes : ConnectOutcomes) : SshAttempt κ :=
  if connection.host.trim = [] then
    .failed (.new .invalidInput "host must not be empty".toList)
  else if connection.username.trim = [] then
    .failed (.new .invalidInput "username must not be empty".toList)
  else
    match outcomes.knownHosts, outcomes.connect with
    | .error error, _ => .failed error
    | .ok _, .timedOut =>
      .failed (.new .timeout
        ("connecting to ".toList ++ connection.address ++ " timed out".toList))
    | .ok _, .failed error => .failed (classify error connection.address)
    | .ok _, .connected =>
      match authenticate connection sources server with
      | (.error error, exchange) => ⟨.error error, exchange, []⟩
      | (.ok _, exchange) =>
        let (result, channel) := openShell connection outcomes
        ⟨result, exchange, channel⟩

/-- Success needs an accepting answer, and a refusal ends in an authentication error. -/
structure AuthExchange.Heeded (outcome : RdtResult Unit × AuthExchange κ) : Prop where
  accepted : outcome.1 = .ok () → outcome.2.answers.getLast? = some .accept
  refused : .refuse ∈ outcome.2.answers →
    ∃ error, outcome.1 = .error error ∧ error.code = .authentication

/-- The answers are heeded, and behind a refusal no channel is asked for. -/
structure SshConnection.NeedsAcceptance (connection : SshConnection) (sources : KeySources κ)
    (server : AuthServer κ) : Prop where
  heeded : AuthExchange.Heeded (authenticate connection sources server)
  closed : ∀ outcomes, .refuse ∈ (connection.connect sources server outcomes).exchange.answers →
    (connection.connect sources server outcomes).channel = []

/-- What the server may answer where the client drops its answers. -/
def SshConnection.DroppedAnswersAccept (connection : SshConnection) (server : AuthServer κ) :
    Prop :=
  let begun : List (AuthRequest κ) := [.keyboardInteractive connection.username []]
  match connection.auth with
  | .none => ∀ answer, server [.none connection.username] = .ok answer → answer = .accept
  | .keyboardInteractive _ => ∀ first, server begun = .ok first →
    (∀ second, server (begun ++ [.next []]) = .ok second → first ≠ .refuse ∧ second = .accept) ∧
      ∀ error, server (begun ++ [.next []]) = .error error → first = .refuse →
        error.kind = .tooManyAuthAttempts
  | _ => True

namespace AuthExchange

variable {server : AuthServer κ} {request : AuthRequest κ} {exchange : AuthExchange κ}

theorem ask_ok {answer : AuthAnswer} (h : server (exchange.requests ++ [request]) = .ok answer) :
    exchange.ask server request =
      (.ok answer, ⟨exchange.requests ++ [request], exchange.answers ++ [answer]⟩) := by
  rw [ask, h]

theorem ask_error {error : RusshError}
    (h : server (exchange.requests ++ [request]) = .error error) :
    exchange.ask server request = (.error (classify error "authentication".toList),
      ⟨exchange.requests ++ [request], exchange.answers⟩) := by
  rw [ask, h]

theorem heeded_start (error : RdtError) : Heeded (.error error, (start : AuthExchange κ)) where
  accepted := fun h => nomatch h
  refused := fun h => absurd h List.not_mem_nil

/-- The methods that look at the answer. -/
theorem heeded_settle (refusal : Text) (server : AuthServer κ) (request : AuthRequest κ) :
    Heeded (settle refusal (start.ask server request)) := by
  cases h : server (start.requests ++ [request]) with
  | error error =>
    rw [ask_error h]
    exact ⟨fun hok => (nomatch hok), fun hrefuse => absurd hrefuse List.not_mem_nil⟩
  | ok answer =>
    rw [ask_ok h, settle]
    split
    next haccept =>
      rw [haccept]
      exact ⟨fun _ => rfl, fun hrefuse => (nomatch List.mem_singleton.mp hrefuse)⟩
    next =>
      exact ⟨fun hok => (nomatch hok), fun _ => ⟨_, rfl, rfl⟩⟩

/-- A single request whose answer is dropped. -/
theorem heeded_dropped_iff (server : AuthServer κ) (request : AuthRequest κ) :
    Heeded ((start.ask server request).1.map fun _ => (), (start.ask server request).2) ↔
      ∀ answer, server [request] = .ok answer → answer = .accept := by
  cases h : server [request] with
  | error error =>
    rw [ask_error h]
    exact iff_of_true ⟨fun hok => (nomatch hok), fun hrefuse => absurd hrefuse List.not_mem_nil⟩
      fun answer hanswer => (nomatch hanswer)
  | ok answer =>
    rw [ask_ok h]
    constructor
    · rintro ⟨haccepted, _⟩ other hother
      cases Except.ok.inj hother
      exact Option.some.inj (haccepted rfl)
    · intro haccept
      obtain rfl := haccept answer rfl
      exact ⟨fun _ => rfl, fun hrefuse => (nomatch List.mem_singleton.mp hrefuse)⟩

theorem code_eq_authentication_iff (kind : RusshErrorKind) :
    kind.code = .authentication ↔ kind = .tooManyAuthAttempts := by
  cases kind <;> decide

/-- The second of two requests, whose answers are dropped both. -/
theorem heeded_second_iff (server : AuthServer κ) (requests : List (AuthRequest κ))
    (first : AuthAnswer) (request : AuthRequest κ) :
    Heeded ((ask server request ⟨requests, [first]⟩).1.map fun _ => (),
        (ask server request ⟨requests, [first]⟩).2) ↔
      (∀ second, server (requests ++ [request]) = .ok second →
        first ≠ .refuse ∧ second = .accept) ∧
        ∀ error, server (requests ++ [request]) = .error error → first = .refuse →
          error.kind = .tooManyAuthAttempts := by
  cases h : server (requests ++ [request]) with
  | error error =>
    rw [ask_error h]
    constructor
    · rintro ⟨_, hrefused⟩
      refine ⟨fun second hsecond => (nomatch hsecond), fun other hother hfirst => ?_⟩
      cases Except.error.inj hother
      obtain ⟨report, hreport, hcode⟩ := hrefused (List.mem_singleton.mpr hfirst.symm)
      cases Except.error.inj hreport
      exact (code_eq_authentication_iff error.kind).mp hcode
    · rintro ⟨_, hkind⟩
      refine ⟨fun hok => (nomatch hok), fun hrefuse => ⟨_, rfl, ?_⟩⟩
      have hfirst := (List.mem_singleton.mp hrefuse).symm
      exact (code_eq_authentication_iff error.kind).mpr (hkind error rfl hfirst)
  | ok second =>
    rw [ask_ok h]
    constructor
    · rintro ⟨haccepted, hrefused⟩
      refine ⟨fun other hother => ?_, fun error herror => (nomatch herror)⟩
      cases Except.ok.inj hother
      refine ⟨?_, Option.some.inj (haccepted rfl)⟩
      rintro rfl
      obtain ⟨report, hreport, _⟩ := hrefused List.mem_cons_self
      cases hreport
    · rintro ⟨hsecond, _⟩
      obtain ⟨hfirst, rfl⟩ := hsecond second rfl
      refine ⟨fun _ => rfl, fun hrefuse => ?_⟩
      rcases List.mem_cons.mp hrefuse with hrefuse | hrefuse
      · exact absurd hrefuse.symm hfirst
      · cases List.mem_singleton.mp hrefuse

end AuthExchange

theorem authenticate_heeded_iff (connection : SshConnection) (sources : KeySources κ)
    (server : AuthServer κ) :
    AuthExchange.Heeded (authenticate connection sources server) ↔
      connection.DroppedAnswersAccept server := by
  unfold authenticate SshConnection.DroppedAnswersAccept
  cases connection.auth with
  | none => exact AuthExchange.heeded_dropped_iff server _
  | password source =>
    dsimp only
    cases resolveSecret sources source "password".toList with
    | error error => exact iff_true_intro (AuthExchange.heeded_start error)
    | ok password => exact iff_true_intro (AuthExchange.heeded_settle _ server _)
  | privateKey key =>
    dsimp only
    cases loadPrivateKey sources key with
    | error error => exact iff_true_intro (AuthExchange.heeded_start error)
    | ok key => exact iff_true_intro (AuthExchange.heeded_settle _ server _)
  | agent identity => exact iff_true_intro (AuthExchange.heeded_start _)
  | keyboardInteractive source =>
    dsimp only
    cases h : server [.keyboardInteractive connection.username []] with
    | error error =>
      rw [AuthExchange.ask_error h]
      refine iff_of_true ?_ fun first hfirst => (nomatch hfirst)
      exact ⟨fun hok => (nomatch hok), fun hrefuse => absurd hrefuse List.not_mem_nil⟩
    | ok first =>
      rw [AuthExchange.ask_ok h]
      have hsecond := AuthExchange.heeded_second_iff server
        [.keyboardInteractive connection.username []] first (.next [])
      refine hsecond.trans ⟨fun hheeds other hother => ?_, fun hheeds => hheeds first rfl⟩
      cases Except.ok.inj hother
      exact hheeds

/-- A channel is asked for only behind a successful authentication. -/
theorem connect_cases (connection : SshConnection) (sources : KeySources κ)
    (server : AuthServer κ) (outcomes : ConnectOutcomes) :
    (connection.connect sources server outcomes).channel = [] ∨
      authenticate connection sources server =
        (.ok (), (connection.connect sources server outcomes).exchange) := by
  unfold SshConnection.connect
  split
  next => exact .inl rfl
  next =>
    split
    next => exact .inl rfl
    next =>
      split
      next => exact .inl rfl
      next => exact .inl rfl
      next => exact .inl rfl
      next =>
        split
        next => exact .inl rfl
        next hok => exact .inr hok

theorem channel_eq_nil (connection : SshConnection) (sources : KeySources κ)
    (server : AuthServer κ) (h : AuthExchange.Heeded (authenticate connection sources server))
    (outcomes : ConnectOutcomes)
    (hrefuse : .refuse ∈ (connection.connect sources server outcomes).exchange.answers) :
    (connection.connect sources server outcomes).channel = [] := by
  rcases connect_cases connection sources server outcomes with hnil | hok
  · exact hnil
  · rw [hok] at h
    obtain ⟨error, herror, _⟩ := h.refused hrefuse
    cases herror

/-- No session begins without an accepting answer, and none behind a refusal, exactly where the
server accepts whenever its answer is dropped. -/
theorem needs_acceptance_iff (connection : SshConnection) (sources : KeySources κ)
    (server : AuthServer κ) :
    connection.NeedsAcceptance sources server ↔ connection.DroppedAnswersAccept server := by
  rw [← authenticate_heeded_iff connection sources server]
  exact ⟨fun h => h.heeded, fun h => ⟨h, channel_eq_nil connection sources server h⟩⟩

def guest : SshConnection where
  host := "example.com".toList
  port := 22
  username := "alice".toList
  auth := .none
  command := .interactiveShell
  size := ⟨80, 24⟩
  term := "xterm-256color".toList
  environment := []

def noKeys : KeySources Unit where
  home := []
  fetch := fun _ => .ok none
  readToString := fun _ => .error []
  decodeSecretKey := fun _ _ => .error []

def reachable : ConnectOutcomes := ⟨.ok (), .connected, none, none, none⟩

/-- The server refuses, and the client asks it for a shell. -/
theorem refused_guest_asks_for_shell :
    (guest.connect noKeys (fun _ => .ok .refuse) reachable).exchange.answers = [.refuse] ∧
      (guest.connect noKeys (fun _ => .ok .refuse) reachable).channel =
        [.openSession, .requestPty guest.term guest.size, .shell] ∧
      ¬guest.NeedsAcceptance noKeys fun _ => .ok .refuse := by
  have hhost : guest.host.trim ≠ [] := by decide
  have husername : guest.username.trim ≠ [] := by decide
  have hconnect : guest.connect noKeys (fun _ => .ok .refuse) reachable =
      ⟨.ok (), ⟨[.none guest.username], [.refuse]⟩,
        [.openSession, .requestPty guest.term guest.size, .shell]⟩ := by
    rw [SshConnection.connect, if_neg hhost, if_neg husername]
    rfl
  refine ⟨by rw [hconnect], by rw [hconnect], fun h => ?_⟩
  have hclosed := h.closed reachable
  rw [hconnect] at hclosed
  cases hclosed List.mem_cons_self

end

end RemoteDesktopTool
